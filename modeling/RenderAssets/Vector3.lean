import RenderAssets.Scalar

/-!
# Vectors of three scalars

Sums, products and the length of a vector are written in one fixed order of
scalar operations, because rounded arithmetic tells different orders apart:
a squared length adds the first two squares before the third, and a vector is
normalised by dividing each component by the length. Normalising tests nothing,
so the zero vector has whatever direction dividing zero by zero gives.
-/

namespace RenderAssets

/-- A point or a direction in space. -/
@[ext] structure Vector3 (α : Type) where
  x : α
  y : α
  z : α
  deriving DecidableEq, Repr

namespace Vector3

variable {α : Type} [Scalar α]

instance : Zero (Vector3 α) := ⟨⟨0, 0, 0⟩⟩

instance : Add (Vector3 α) where
  add left right := ⟨left.x + right.x, left.y + right.y, left.z + right.z⟩

instance : Sub (Vector3 α) where
  sub left right := ⟨left.x - right.x, left.y - right.y, left.z - right.z⟩

/-- Every component multiplied by one factor, which stands on the right. -/
def scale (vector : Vector3 α) (factor : α) : Vector3 α :=
  ⟨vector.x * factor, vector.y * factor, vector.z * factor⟩

/-- Every component divided by one divisor, never multiplied by its reciprocal. -/
def divide (vector : Vector3 α) (divisor : α) : Vector3 α :=
  ⟨vector.x / divisor, vector.y / divisor, vector.z / divisor⟩

/-- The cross product, right-handed. -/
def cross (left right : Vector3 α) : Vector3 α :=
  ⟨left.y * right.z - left.z * right.y,
    left.z * right.x - left.x * right.z,
    left.x * right.y - left.y * right.x⟩

/-- The squares are added from the first component to the last. -/
def squaredLength (vector : Vector3 α) : α :=
  (vector.x * vector.x + vector.y * vector.y) + vector.z * vector.z

/-- The Euclidean length. -/
def length (vector : Vector3 α) : α := Scalar.sqrt vector.squaredLength

/-- The vector divided by its own length. A length of zero is not excepted. -/
def normalize (vector : Vector3 α) : Vector3 α := vector.divide vector.length

/-- The normal of a triangle before normalising: it follows the right-hand rule
of the winding, and its length is twice the area of the triangle. -/
def triangleNormal (first second third : Vector3 α) : Vector3 α :=
  (second - first).cross (third - first)

/-- Whether no component differs by more than a tolerance. An unordered
difference exceeds every tolerance. -/
def within (tolerance : α) (left right : Vector3 α) : Bool :=
  let difference := left - right
  Scalar.atMost (Scalar.abs difference.x) tolerance &&
    Scalar.atMost (Scalar.abs difference.y) tolerance &&
    Scalar.atMost (Scalar.abs difference.z) tolerance

/-- The bit patterns of the components. Two vectors with one key are the same
vector as far as any stored value can show: signed zeros have different keys, and
so have NaNs of different patterns. -/
def key (vector : Vector3 α) : Vector3 UInt32 :=
  ⟨Scalar.bits vector.x, Scalar.bits vector.y, Scalar.bits vector.z⟩

end Vector3

end RenderAssets
