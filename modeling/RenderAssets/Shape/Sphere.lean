import RenderAssets.Shape.Steps
import RenderAssets.Mesh.Basic

/-!
# The sphere as a grid of longitudes and latitudes

A row of vertices runs around the axis at every latitude, the poles included.
The first and the last vertex of a row stand at the same place, and so do all
vertices of a pole's row, which is what a texture laid over the grid needs. The
normals that come with the shape are the directions from the centre.
-/

namespace RenderAssets.Shape.Sphere

/-- The vertex at a row and a column. A row has one vertex more than segments. -/
def vertex (segments row column : UInt32) : UInt32 := row * (segments + 1) + column

/-- The two triangles between a row and the next one, over one segment. -/
def cellTriangles (segments row column : UInt32) : List (Triangle UInt32) :=
  let current := vertex segments row column
  let below := current + segments + 1
  [⟨current, current + 1, below⟩, ⟨current + 1, below + 1, below⟩]

/-- The cells of the grid, row by row. -/
def triangles (segments rings : UInt32) : List (Triangle UInt32) :=
  (steps rings.toNat).flatMap fun row =>
    (steps segments.toNat).flatMap fun column => cellTriangles segments row column

variable {α : Type} [Trigonometric α]

/-- The direction at a latitude and a longitude, both as angles. -/
def direction (latitude longitude : α) : Vector3 α :=
  ⟨Trigonometric.sin latitude * Trigonometric.cos longitude,
    Trigonometric.cos latitude,
    Trigonometric.sin latitude * Trigonometric.sin longitude⟩

/-- The directions of all vertices, row by row. -/
def directions (segments rings : UInt32) : List (Vector3 α) :=
  (steps (rings.toNat + 1)).flatMap fun row =>
    (steps (segments.toNat + 1)).map fun column =>
      direction (halfTurnAngle row rings) (turnAngle column segments)

/-- The sphere of a radius, with a grid of the given size. -/
def mesh (radius : α) (segments rings : UInt32) : TriangleMesh α :=
  let directions : List (Vector3 α) := directions segments rings
  { positions := (directions.map (·.scale radius)).toArray
    normals? := some directions.toArray
    indices? := some (.uint32 (Triangle.flatten (triangles segments rings)))
    label? := some "sphere" }

end RenderAssets.Shape.Sphere
