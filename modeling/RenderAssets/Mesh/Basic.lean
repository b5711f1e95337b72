import RenderAssets.Normals.Smooth

/-!
# Triangle meshes

A mesh has positions, and may have normals, an index buffer and a label. Without
indices every three positions are a triangle; with indices every three indices
are. A mesh is built by replacing one part at a time. Computing normals may be
refused, and then there is no new mesh: the one at hand stays what it was.

Normals set by hand are taken as they are. Computed normals always have one
entry per position.
-/

namespace RenderAssets

/-- A triangle list held in memory. -/
structure TriangleMesh (α : Type) where
  positions : Array (Vector3 α) := #[]
  normals? : Option (Array (Vector3 α)) := none
  indices? : Option IndexBuffer := none
  label? : Option String := none
  deriving DecidableEq, Repr

namespace TriangleMesh

variable {α : Type}

/-- The mesh with nothing in it. -/
instance : EmptyCollection (TriangleMesh α) := ⟨{}⟩

/-- The mesh of unshared positions. -/
def ofPositions (positions : Array (Vector3 α)) : TriangleMesh α := { positions }

/-- Replace the normals by given ones, however many there are. -/
def withNormals (mesh : TriangleMesh α) (normals : Array (Vector3 α)) : TriangleMesh α :=
  { mesh with normals? := some normals }

/-- Replace the index buffer. -/
def withIndices (mesh : TriangleMesh α) (indices : IndexBuffer) : TriangleMesh α :=
  { mesh with indices? := some indices }

/-- Replace the label. -/
def withLabel (mesh : TriangleMesh α) (label : String) : TriangleMesh α :=
  { mesh with label? := some label }

/-- Whether triangles name their vertices by index. -/
def isIndexed (mesh : TriangleMesh α) : Bool := mesh.indices?.isSome

/-- The width of the indices, if there are any. -/
def indexFormat? (mesh : TriangleMesh α) : Option IndexFormat :=
  mesh.indices?.map IndexBuffer.format

/-- The number of positions. -/
def vertexCount (mesh : TriangleMesh α) : Nat := mesh.positions.size

/-- The number of indices, zero without an index buffer. -/
def indexCount (mesh : TriangleMesh α) : Nat :=
  match mesh.indices? with
  | some indices => indices.length
  | none => 0

/-- The number of whole triangles. -/
def triangleCount (mesh : TriangleMesh α) : Nat :=
  if mesh.isIndexed then mesh.indexCount / 3 else mesh.vertexCount / 3

section Normals

variable [Scalar α]

/-- Replace the normals by flat ones. They need a vertex of their own for every
corner, so an indexed mesh is refused before anything is counted. -/
def withFlatNormals (mesh : TriangleMesh α) : Except MeshError (TriangleMesh α) :=
  if mesh.isIndexed then
    .error .sharedVertices
  else
    match FlatNormals.ofPositions mesh.positions with
    | .error failure => .error failure
    | .ok normals => .ok (mesh.withNormals normals)

/-- The smooth normals of a mesh. Without indices no vertex is shared, and the
smooth normals are the flat ones. -/
def smoothNormals (mesh : TriangleMesh α) : Except MeshError (Array (Vector3 α)) :=
  match mesh.indices? with
  | some indices => SmoothNormals.ofIndices indices mesh.positions
  | none => FlatNormals.ofPositions mesh.positions

/-- Replace the normals by smooth ones. -/
def withSmoothNormals (mesh : TriangleMesh α) : Except MeshError (TriangleMesh α) :=
  match mesh.smoothNormals with
  | .error failure => .error failure
  | .ok normals => .ok (mesh.withNormals normals)

end Normals

end TriangleMesh

end RenderAssets
