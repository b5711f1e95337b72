import Mathlib.Tactic.SplitIfs
import RenderAssets.Vector3
import RenderAssets.Proofs.Scalar.BitPatterns

/-!
# Equality up to the sign of zero

Rounded arithmetic has a zero of either sign, and a sum that begins with zero may lose
the sign of what is added to it. Two scalars are alike if their bit patterns are the same
once both zeros have one pattern, and all NaNs have one.

Of the arithmetic two laws are asked: adding to zero gives what was added, and normalising
does not make more of a sign of zero than there was. Both hold of binary32. There zero and
a value that is no zero make that very value, because a value is known by its unpacked form;
and the length of a vector does not see the sign of a zero at all, because the square of
either zero is the positive one.
-/

namespace RenderAssets

namespace Scalar

variable {α : Type} [Scalar α]

/-- The pattern of the negative zero. The positive one has no bit set. -/
def negativeZeroBits : UInt32 := 0x80000000

/-- The bit pattern, with one pattern for all NaNs and one for both zeros. -/
def foldedBits (value : α) : UInt32 :=
  let merged := mergeNaNs (bits value)
  if merged = negativeZeroBits then 0 else merged

/-- Equality up to the sign of zero, all NaNs counting as one value. -/
def Alike (left right : α) : Prop := foldedBits left = foldedBits right

instance (left right : α) : Decidable (Alike left right) :=
  inferInstanceAs (Decidable (_ = _))

end Scalar

namespace Vector3

variable {α : Type} [Scalar α]

/-- Equality component by component, up to signs of zero. -/
structure Alike (left right : Vector3 α) : Prop where
  x : Scalar.Alike left.x right.x
  y : Scalar.Alike left.y right.y
  z : Scalar.Alike left.z right.z

end Vector3

/-- What is asked of arithmetic with two zeros. -/
structure SignedZeroLaws (α : Type) [Scalar α] : Prop where
  /-- Adding to zero gives what was added. -/
  zero_add (value : α) : Scalar.Alike (0 + value) value
  /-- Signs of zero make no more difference after normalising than before. -/
  normalize (left right : Vector3 α) :
    left.Alike right → left.normalize.Alike right.normalize

namespace Scalar.Binary32

open Float.Model (UnpackedFloat)
open Float.Model.UnpackedFloat (Sign)

/-- A value is known by its unpacked form. -/
theorem pack_unpacked (value : Float32) :
    Float32.ofModel (Float32.Model.pack value.toModel.unpack) = value :=
  ofBits_toBits value

/-- The bits of a value have no NaNs to merge, and only the zeros to fold. -/
theorem foldedBits_eq (value : Float32) :
    foldedBits value = if value.toBits = negativeZeroBits then 0 else value.toBits := by
  change (if mergeNaNs value.toBits = negativeZeroBits then 0 else mergeNaNs value.toBits) = _
  rw [mergeNaNs_toBits]

/-- The zero of a sign. -/
def zeroOf (sign : Sign) : Float32 := .ofModel (.pack (.zero sign))

/-- The zeros are told apart by the highest bit, and not at all once folded. -/
theorem foldedBits_zeroOf (sign : Sign) : foldedBits (zeroOf sign) = 0 := by
  cases sign <;> decide

/-- Values are alike if they are the same, or are both zeros. -/
theorem alike_iff {left right : Float32} :
    Alike left right ↔ left = right ∨
      ∃ leftSign rightSign, left = zeroOf leftSign ∧ right = zeroOf rightSign := by
  constructor
  · intro same
    rw [Alike, foldedBits_eq, foldedBits_eq] at same
    have positive (value : Float32) : value.toBits = 0 → value = zeroOf .positive :=
      fun pattern => toBits_inj.mp pattern
    have negative (value : Float32) : value.toBits = negativeZeroBits → value = zeroOf .negative :=
      fun pattern => toBits_inj.mp pattern
    split_ifs at same with leftNegative rightNegative rightNegative
    · exact .inl (toBits_inj.mp (leftNegative.trans rightNegative.symm))
    · exact .inr ⟨_, _, negative _ leftNegative, positive _ same.symm⟩
    · exact .inr ⟨_, _, positive _ same, negative _ rightNegative⟩
    · exact .inl (toBits_inj.mp same)
  · rintro (rfl | ⟨leftSign, rightSign, rfl, rfl⟩)
    · rfl
    · rw [Alike, foldedBits_zeroOf, foldedBits_zeroOf]

/-- The zeros are alike. -/
theorem alike_zeros (leftSign rightSign : Sign) : Alike (zeroOf leftSign) (zeroOf rightSign) :=
  alike_iff.mpr (.inr ⟨leftSign, rightSign, rfl, rfl⟩)

/-- A zero unpacks to what it was packed from. -/
theorem unpack_zeroOf (sign : Sign) : (zeroOf sign).toModel.unpack = .zero sign := by
  cases sign <;> rfl

/-- Zero and a value make that value, unless it is a zero, and then they make a zero. -/
theorem zero_add_alike (value : Float32) : Alike (0 + value) value := by
  have sum : 0 + value =
      .ofModel (.pack (.add .binary32 (.zero .positive) value.toModel.unpack)) := rfl
  have packed := pack_unpacked value
  rw [sum]
  cases unpacked : value.toModel.unpack with
  | zero sign =>
    rw [unpacked] at packed
    rw [← packed]
    cases sign <;> exact alike_zeros _ _
  | notANumber | infinity | finite =>
    rw [unpacked] at packed
    exact congrArg foldedBits packed

/-- The square of either zero is the positive zero. -/
theorem square_congr {left right : Float32} (same : Alike left right) :
    left * left = right * right := by
  rcases alike_iff.mp same with rfl | ⟨leftSign, rightSign, rfl, rfl⟩
  · rfl
  · cases leftSign <;> cases rightSign <;> rfl

/-- A zero of either sign divided by anything is a zero, or no number at all. -/
theorem div_congr {left right : Float32} (same : Alike left right) (divisor : Float32) :
    Alike (left / divisor) (right / divisor) := by
  rcases alike_iff.mp same with rfl | ⟨leftSign, rightSign, rfl, rfl⟩
  · rfl
  · have quotient (sign : Sign) : zeroOf sign / divisor =
        .ofModel (.pack (.div .binary32 (.zero sign) divisor.toModel.unpack)) := by
      rw [← unpack_zeroOf sign]
      rfl
    rw [quotient, quotient]
    cases divisor.toModel.unpack with
    | notANumber | zero => rfl
    | infinity | finite => exact alike_zeros _ _

/-- The length of a vector does not see the sign of a zero. -/
theorem length_congr {left right : Vector3 Float32} (same : left.Alike right) :
    left.length = right.length := by
  rw [Vector3.length, Vector3.length, Vector3.squaredLength, Vector3.squaredLength,
    square_congr same.x, square_congr same.y, square_congr same.z]

/-- Binary32 keeps the laws. -/
theorem signedZeroLaws : SignedZeroLaws Float32 where
  zero_add := zero_add_alike
  normalize left right same := by
    rw [Vector3.normalize, Vector3.normalize, length_congr same]
    exact ⟨div_congr same.x _, div_congr same.y _, div_congr same.z _⟩

end Scalar.Binary32

end RenderAssets
