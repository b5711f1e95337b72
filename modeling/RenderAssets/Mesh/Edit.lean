import RenderAssets.Shape.Cube
import RenderAssets.Shape.Cylinder
import RenderAssets.Shape.Sphere

/-!
# Building a mesh step by step

A mesh is built by a run of edits. Some replace the mesh as a whole, the others
one part of it. An edit that is refused, or abandoned at a missing vertex, leaves
the mesh as it was, and the run goes on from there.
-/

namespace RenderAssets

/-- One step in building a mesh. -/
inductive MeshEdit (α : Type) where
  /-- Start again from nothing. -/
  | clear
  /-- Start again from unshared positions. -/
  | positions (positions : Array (Vector3 α))
  /-- Start again from a cube. -/
  | cube (halfExtent : α)
  /-- Start again from a cylinder. -/
  | cylinder (radius halfLength : α) (segments : UInt32)
  /-- Start again from a sphere. -/
  | sphere (radius : α) (segments rings : UInt32)
  /-- Set the normals. -/
  | normals (normals : Array (Vector3 α))
  /-- Set the index buffer. -/
  | indices (indices : IndexBuffer)
  /-- Set the label. -/
  | label (label : String)
  /-- Compute flat normals. -/
  | flatNormals
  /-- Compute smooth normals. -/
  | smoothNormals

namespace TriangleMesh

variable {α : Type} [Trigonometric α]

/-- The mesh that an edit asks for, or why there is none. -/
def edited (mesh : TriangleMesh α) : MeshEdit α → Except MeshError (TriangleMesh α)
  | .clear => .ok ∅
  | .positions positions => .ok (ofPositions positions)
  | .cube halfExtent => .ok (Shape.Cube.mesh halfExtent)
  | .cylinder radius halfLength segments => .ok (Shape.Cylinder.mesh radius halfLength segments)
  | .sphere radius segments rings => .ok (Shape.Sphere.mesh radius segments rings)
  | .normals normals => .ok (mesh.withNormals normals)
  | .indices indices => .ok (mesh.withIndices indices)
  | .label label => .ok (mesh.withLabel label)
  | .flatNormals => mesh.withFlatNormals
  | .smoothNormals => mesh.withSmoothNormals

/-- The mesh after an edit. -/
def edit (mesh : TriangleMesh α) (edit : MeshEdit α) : TriangleMesh α :=
  match mesh.edited edit with
  | .ok changed => changed
  | .error _ => mesh

/-- The mesh after a run of edits. -/
def editAll (mesh : TriangleMesh α) (edits : List (MeshEdit α)) : TriangleMesh α :=
  edits.foldl edit mesh

end TriangleMesh

end RenderAssets
