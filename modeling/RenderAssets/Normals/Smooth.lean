import RenderAssets.Normals.Flat
import RenderAssets.Mesh.IndexBuffer

/-!
# Smooth normals

Triangles share vertices through an index buffer. Every vertex gets the
normalised sum of the unnormalised normals of the triangles that mention it; the
length of such a normal is twice the triangle's area, so larger triangles weigh
more. Triangles are added in index order, and a triangle that names a vertex
twice is added to it twice. A vertex that no triangle mentions gets the
normalised zero vector.

The first corner that names a missing vertex abandons the run. Corners are met
triangle by triangle, and within a triangle from the first to the third.
-/

namespace RenderAssets

/-- The position of a vertex, or the failure to find it. -/
def vertexPosition {α : Type} (positions : Array (Vector3 α)) (vertex : Nat) :
    Except MeshError (Vector3 α) :=
  match positions[vertex]? with
  | some position => .ok position
  | none => .error (.missingVertex positions.size vertex)

/-- The positions of the three corners, looked up in corner order. -/
def trianglePositions {α : Type} (positions : Array (Vector3 α)) (triangle : Triangle Nat) :
    Except MeshError (Triangle (Vector3 α)) :=
  match vertexPosition positions triangle.first with
  | .error failure => .error failure
  | .ok first =>
    match vertexPosition positions triangle.second with
    | .error failure => .error failure
    | .ok second =>
      match vertexPosition positions triangle.third with
      | .error failure => .error failure
      | .ok third => .ok ⟨first, second, third⟩

namespace SmoothNormals

variable {α : Type} [Scalar α]

/-- The normal of a triangle of positions, weighted by its area. -/
def weightedNormal (triangle : Triangle (Vector3 α)) : Vector3 α :=
  Vector3.triangleNormal triangle.first triangle.second triangle.third

/-- Add one normal to the sums of the three corners, in corner order. -/
def addAtCorners (sums : Array (Vector3 α)) (triangle : Triangle Nat) (normal : Vector3 α) :
    Array (Vector3 α) :=
  ((sums.modify triangle.first (· + normal)).modify triangle.second (· + normal)).modify
    triangle.third (· + normal)

/-- Add the triangles to the sums one after the other, up to the first missing
vertex. -/
def accumulate (positions : Array (Vector3 α)) :
    List (Triangle Nat) → Array (Vector3 α) → Except MeshError (Array (Vector3 α))
  | [], sums => .ok sums
  | triangle :: rest, sums =>
    match trianglePositions positions triangle with
    | .error failure => .error failure
    | .ok corners =>
      accumulate positions rest (addAtCorners sums triangle (weightedNormal corners))

/-- Fill a buffer with one normal per position. What the buffer held before is
cleared, not read. After a missing vertex the buffer holds nothing of use. -/
def fill (indices : IndexBuffer) (positions buffer : Array (Vector3 α)) : Filling α :=
  if indices.length % 3 ≠ 0 then
    { buffer, failure? := some (.indexCount .smoothNormals) }
  else if buffer.size ≠ positions.size then
    { buffer, failure? := some (.outputSize .smoothNormals positions.size buffer.size) }
  else
    let cleared := buffer.map fun _ => (0 : Vector3 α)
    match accumulate positions (Triangle.cut indices.vertices) cleared with
    | .error failure => { buffer := cleared, failure? := some failure }
    | .ok sums => { buffer := sums.map Vector3.normalize }

/-- One normal per position, in a new buffer. -/
def ofIndices (indices : IndexBuffer) (positions : Array (Vector3 α)) :
    Except MeshError (Array (Vector3 α)) :=
  (fill indices positions (Array.replicate positions.size 0)).result

/-- Adding at the corners keeps one sum per vertex. -/
theorem size_addAtCorners (sums : Array (Vector3 α)) (triangle : Triangle Nat)
    (normal : Vector3 α) : (addAtCorners sums triangle normal).size = sums.size := by
  simp [addAtCorners]

end SmoothNormals

end RenderAssets
