import RenderAssets.FloatWord
import RenderAssets.Proofs.Scalar.SignedZeros

/-!
# What words compute is what their values compute

Whatever becomes of the patterns of NaNs, the value of a result is the result of the values.
For NaNs this takes that an operation makes a NaN of every NaN, and that a NaN is still one
when its quiet bit is set.

Equality up to signs of zero does not tell NaNs apart, and so it can be read off the values.
Words keep the laws of arithmetic with two zeros because their values do.
-/

namespace RenderAssets

namespace Scalar.Binary32

open Float.Model (UnpackedFloat)

/-- A value is a NaN if that is what it unpacks to. -/
theorem isNaN_iff {value : Float32} : value.isNaN ↔ value.toModel.unpack = .notANumber := by
  change value.toModel.unpack.isNaN ↔ _
  cases value.toModel.unpack with
  | notANumber => exact iff_of_true rfl rfl
  | zero | infinity | finite => exact iff_of_false Bool.false_ne_true UnpackedFloat.noConfusion

/-- There is only one NaN. -/
theorem eq_of_isNaN {left right : Float32} (leftNaN : left.isNaN) (rightNaN : right.isNaN) :
    left = right := by
  rw [← toBits_inj, toBits_of_isNaN leftNaN, toBits_of_isNaN rightNaN]

/-- An operation that makes a NaN of every NaN among its operands. -/
def Strict (operation : Float32 → Float32 → Float32) : Prop :=
  ∀ left right : Float32, left.isNaN ∨ right.isNaN → (operation left right).isNaN

/-- Operations are strict if they are so on unpacked values. -/
theorem strict_of_unpacked (operation : UnpackedFloat → UnpackedFloat → UnpackedFloat)
    (onLeft : ∀ value, operation .notANumber value = .notANumber)
    (onRight : ∀ value, operation value .notANumber = .notANumber) :
    Strict fun left right =>
      .ofModel (.pack (operation left.toModel.unpack right.toModel.unpack)) := by
  intro left right unordered
  change (Float32.ofModel (.pack (operation left.toModel.unpack right.toModel.unpack))).isNaN
  rcases unordered with unordered | unordered
  · rw [isNaN_iff.mp unordered, onLeft]
    decide
  · rw [isNaN_iff.mp unordered, onRight]
    decide

/-- Sums are strict. -/
theorem strict_add : Strict (· + ·) :=
  strict_of_unpacked (UnpackedFloat.add .binary32) (fun _ => rfl) fun value => by
    cases value <;> rfl

/-- Products are strict. -/
theorem strict_mul : Strict (· * ·) :=
  strict_of_unpacked (UnpackedFloat.mul .binary32) (fun _ => rfl) fun value => by
    cases value <;> rfl

/-- Quotients are strict. -/
theorem strict_div : Strict (· / ·) :=
  strict_of_unpacked (UnpackedFloat.div .binary32) (fun _ => rfl) fun value => by
    cases value <;> rfl

/-- A NaN has no square root. -/
theorem isNaN_sqrt {value : Float32} (unordered : value.isNaN) : value.sqrt.isNaN := by
  change (Float32.ofModel (.pack (UnpackedFloat.sqrt .binary32 value.toModel.unpack))).isNaN
  rw [isNaN_iff.mp unordered]
  decide

end Scalar.Binary32

namespace FloatWord

open Scalar.Binary32
open Float.Model.UnpackedFloat (unpackExponent unpackMantissa)

/-- A NaN is still one when its quiet bit is set: the exponent is the same, and the mantissa
has that bit. -/
theorem isNaN_quieted {word : FloatWord} (unordered : word.value.isNaN) :
    word.quieted.value.isNaN := by
  rw [value, isNaN_ofBits, isNaN_unpack_iff] at unordered ⊢
  obtain ⟨special, -⟩ := unordered
  change @unpackExponent .binary32 (word.pattern.toBitVec ||| 0x00400000#32) = _ ∧
    @unpackMantissa .binary32 (word.pattern.toBitVec ||| 0x00400000#32) ≠ _
  constructor
  case left =>
    rw [← special]
    simp [unpackExponent, BitVec.extractLsb, BitVec.extractLsb'_or]
  case right =>
    simp [unpackMantissa, BitVec.extractLsb, BitVec.extractLsb'_or]

/-- A result has the value that was computed. -/
theorem value_ofResult (result : Float32) : (ofResult result).value = result := by
  rw [ofResult]
  split
  case isTrue unordered => exact eq_of_isNaN (by decide) unordered
  case isFalse => exact ofBits_toBits result

/-- An operation on a word is that on its value, if it makes a NaN of every NaN. -/
theorem value_unary {operation : Float32 → Float32}
    (strict : ∀ operand : Float32, operand.isNaN → (operation operand).isNaN)
    (word : FloatWord) : (unary operation word).value = operation word.value := by
  rw [unary]
  split
  case isTrue unordered => exact eq_of_isNaN (isNaN_quieted unordered) (strict _ unordered)
  case isFalse => exact value_ofResult _

/-- A strict operation on words is that on their values. -/
theorem value_binary {operation : Float32 → Float32 → Float32} (strict : Strict operation)
    (left right : FloatWord) :
    (binary operation left right).value = operation left.value right.value := by
  rw [binary]
  split
  case isTrue unordered =>
    exact eq_of_isNaN (isNaN_quieted unordered) (strict _ _ (.inl unordered))
  case isFalse =>
    split
    case isTrue unordered =>
      exact eq_of_isNaN (isNaN_quieted unordered) (strict _ _ (.inr unordered))
    case isFalse => exact value_ofResult _

/-- The values of the components. -/
def values (vector : Vector3 FloatWord) : Vector3 Float32 :=
  ⟨vector.x.value, vector.y.value, vector.z.value⟩

/-- The length of a vector of words is that of its values. -/
theorem value_length (vector : Vector3 FloatWord) :
    vector.length.value = (values vector).length := by
  have square (component : FloatWord) :
      (component * component).value = component.value * component.value :=
    value_binary strict_mul _ _
  have sum (left right : FloatWord) : (left + right).value = left.value + right.value :=
    value_binary strict_add _ _
  have root (word : FloatWord) : (Scalar.sqrt word).value = Scalar.sqrt word.value :=
    value_unary (fun _ => isNaN_sqrt) word
  rw [Vector3.length, Vector3.length, root, Vector3.squaredLength, Vector3.squaredLength, sum, sum,
    square, square, square]
  rfl

/-- Vectors of words are normalised as their values are. -/
theorem values_normalize (vector : Vector3 FloatWord) :
    values vector.normalize = (values vector).normalize := by
  have quotient (component : FloatWord) :
      (component / vector.length).value = component.value / (values vector).length := by
    rw [← value_length]
    exact value_binary strict_div _ _
  rw [Vector3.normalize, Vector3.normalize, values]
  simp only [Vector3.divide, quotient, values]

/-- Words are alike if their values are. -/
theorem alike_iff_value {left right : FloatWord} :
    Scalar.Alike left right ↔ Scalar.Alike left.value right.value := by
  have folded (word : FloatWord) : Scalar.foldedBits word = Scalar.foldedBits word.value := by
    rw [foldedBits_eq, value, toBits_ofBits]
    rfl
  rw [Scalar.Alike, Scalar.Alike, folded, folded]

/-- Vectors of words are alike if their values are. -/
theorem alike_iff_values {left right : Vector3 FloatWord} :
    left.Alike right ↔ (values left).Alike (values right) :=
  ⟨fun same => ⟨alike_iff_value.mp same.x, alike_iff_value.mp same.y, alike_iff_value.mp same.z⟩,
    fun same =>
      ⟨alike_iff_value.mpr same.x, alike_iff_value.mpr same.y, alike_iff_value.mpr same.z⟩⟩

/-- Words keep the laws. -/
theorem signedZeroLaws : SignedZeroLaws FloatWord where
  zero_add word := by
    have sum : (0 + word).value = 0 + word.value := value_binary strict_add 0 word
    rw [alike_iff_value, sum]
    exact Scalar.Binary32.signedZeroLaws.zero_add _
  normalize left right same := by
    rw [alike_iff_values, values_normalize, values_normalize]
    exact Scalar.Binary32.signedZeroLaws.normalize _ _ (alike_iff_values.mp same)

end FloatWord

end RenderAssets
