import RenderAssets.Vector3
import RenderAssets.Failure
import RenderAssets.Mesh.Triangle

/-!
# Flat normals

Positions are read as triangles that share no vertex. Every corner of a triangle
gets the triangle's own normalised normal, so neighbours never blend.

The filling form writes into a buffer supplied by the caller. Sizes are checked
before anything is written: a refused call leaves the buffer as it was, and a
call that goes through overwrites every entry. The allocating form fills a new
buffer of the right size, so only the position count can stop it.
-/

namespace RenderAssets

/-- What a filling routine leaves behind: the buffer after the call, and why the
call was refused if it was. -/
structure Filling (α : Type) where
  buffer : Array (Vector3 α)
  failure? : Option MeshError := none

namespace Filling

variable {α : Type}

/-- The buffer of a call that went through, or the reason of its refusal. -/
def result (filling : Filling α) : Except MeshError (Array (Vector3 α)) :=
  match filling.failure? with
  | none => .ok filling.buffer
  | some failure => .error failure

end Filling

namespace FlatNormals

variable {α : Type} [Scalar α]

/-- The normalised normal of a triangle of positions. -/
def faceNormal (triangle : Triangle (Vector3 α)) : Vector3 α :=
  (Vector3.triangleNormal triangle.first triangle.second triangle.third).normalize

/-- Each triangle takes three entries of the buffer and writes its normal into
all of them. Entries beyond the last triangle keep what they hold. -/
def paint : List (Triangle (Vector3 α)) → List (Vector3 α) → List (Vector3 α)
  | triangle :: rest, _ :: _ :: _ :: buffer =>
    let normal := faceNormal triangle
    normal :: normal :: normal :: paint rest buffer
  | _, buffer => buffer

/-- Fill a buffer with one normal per position. -/
def fill (positions buffer : Array (Vector3 α)) : Filling α :=
  if positions.size % 3 ≠ 0 then
    { buffer, failure? := some (.positionCount .flatNormals) }
  else if buffer.size ≠ positions.size then
    { buffer, failure? := some (.outputSize .flatNormals positions.size buffer.size) }
  else
    { buffer := (paint (Triangle.cut positions.toList) buffer.toList).toArray }

/-- One normal per position, in a new buffer. -/
def ofPositions (positions : Array (Vector3 α)) : Except MeshError (Array (Vector3 α)) :=
  (fill positions (Array.replicate positions.size 0)).result

/-- The normals corner by corner: each triangle's own normal, three times. -/
def listed (triangles : List (Triangle (Vector3 α))) : List (Vector3 α) :=
  triangles.flatMap fun triangle => List.replicate 3 (faceNormal triangle)

/-- A buffer with three entries per triangle is overwritten from end to end. -/
theorem paint_eq_listed (triangles : List (Triangle (Vector3 α))) (buffer : List (Vector3 α))
    (fits : buffer.length = 3 * triangles.length) : paint triangles buffer = listed triangles := by
  induction triangles generalizing buffer with
  | nil =>
    have empty : buffer = [] := List.eq_nil_of_length_eq_zero (by simpa using fits)
    simp [paint, listed, empty]
  | cons triangle rest inductionHypothesis =>
    match buffer, fits with
    | _ :: _ :: _ :: remaining, fits =>
      have remainingFits : remaining.length = 3 * rest.length := by
        simp only [List.length_cons] at fits
        omega
      simp [paint, listed, inductionHypothesis remaining remainingFits, List.replicate]
    | [], fits => simp at fits
    | [_], fits =>
      simp only [List.length_cons, List.length_nil] at fits
      omega
    | [_, _], fits =>
      simp only [List.length_cons, List.length_nil] at fits
      omega

end FlatNormals

end RenderAssets
