import RenderAssets.Mesh.Basic

/-!
# The cube

Eight corners shared by twelve triangles. Faces are wound counter-clockwise as
seen from outside, and each face is split along the diagonal between its two
corners whose coordinates have a positive product. Then every corner touches
equally many triangles on each of its three faces, so smooth normals point
straight away from the centre. The normals that come with the shape do so too.
-/

namespace RenderAssets.Shape.Cube

variable {α : Type} [Scalar α]

/-- The corners of the cube that reaches from minus one to one on every axis. -/
def corners : List (Vector3 α) :=
  [⟨-1, -1, 1⟩, ⟨1, -1, 1⟩, ⟨1, 1, 1⟩, ⟨-1, 1, 1⟩,
    ⟨-1, 1, -1⟩, ⟨1, 1, -1⟩, ⟨1, -1, -1⟩, ⟨-1, -1, -1⟩]

/-- Two triangles per face: front, right, top, back, left, bottom. -/
def triangles : List (Triangle UInt8) :=
  [⟨0, 1, 2⟩, ⟨0, 2, 3⟩,
    ⟨6, 5, 2⟩, ⟨6, 2, 1⟩,
    ⟨2, 5, 4⟩, ⟨2, 4, 3⟩,
    ⟨4, 5, 6⟩, ⟨4, 6, 7⟩,
    ⟨4, 7, 0⟩, ⟨4, 0, 3⟩,
    ⟨6, 1, 0⟩, ⟨6, 0, 7⟩]

/-- The cube that reaches as far as asked for on both sides of every axis. -/
def mesh (halfExtent : α) : TriangleMesh α where
  positions := ((corners : List (Vector3 α)).map (·.scale halfExtent)).toArray
  normals? := some ((corners : List (Vector3 α)).map Vector3.normalize).toArray
  indices? := some (.uint8 (Triangle.flatten triangles))
  label? := some "cube"

end RenderAssets.Shape.Cube
