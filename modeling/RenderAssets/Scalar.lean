/-!
# Scalars of rendering arithmetic

Geometry is computed over any carrier of the operations below. No law is asked
of them: addition need not be associative and a value need not equal itself, so
whatever is stated over every carrier holds of rounded arithmetic as it stands,
in exactly the order of operations that the definitions write down.

The bit pattern of a scalar is the only observation that tells signed zeros
apart, and NaNs of different patterns where a carrier has them. `Float32`, where
each operation is rounded once to the nearest binary32 value, has only one NaN.
`FloatWord` computes the same values and keeps the patterns of NaNs.
-/

namespace RenderAssets

/-- Rounded arithmetic as the geometry needs it. The comparison is a truth value
because an unordered pair answers false in both directions. -/
class Scalar (α : Type) extends Zero α, One α, Add α, Sub α, Mul α, Div α, Neg α where
  /-- The square root. -/
  sqrt : α → α
  /-- The magnitude. -/
  abs : α → α
  /-- At most; false whenever the operands are unordered. -/
  atMost : α → α → Bool
  /-- The bit pattern as it is stored. -/
  bits : α → UInt32

/-- Scalars with the angles and circular functions that round shapes need. -/
class Trigonometric (α : Type) extends Scalar α where
  /-- Half a turn. -/
  pi : α
  /-- The sine of an angle. -/
  sin : α → α
  /-- The cosine of an angle. -/
  cos : α → α
  /-- The scalar nearest to a count. -/
  ofCount : UInt32 → α

namespace Scalar

/-- The pattern of the only NaN that `Float32` has. -/
def nanBits : UInt32 := 0x7fc00000

instance : Scalar Float32 where
  zero := 0
  one := 1
  sqrt := Float32.sqrt
  abs := Float32.abs
  atMost left right := decide (left ≤ right)
  bits := Float32.toBits

/-- The binary32 value nearest to half a turn has the bits `40490fdb`. -/
instance : Trigonometric Float32 where
  pi := Float32.ofBits 0x40490fdb
  sin := Float32.sin
  cos := Float32.cos
  ofCount := UInt32.toFloat32

end Scalar

end RenderAssets
