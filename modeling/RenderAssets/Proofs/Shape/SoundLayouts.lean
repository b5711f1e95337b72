import RenderAssets.Mesh.Basic
import RenderAssets.Proofs.Normals.VertexSums

/-!
# Meshes that leave no vertex out

Triangles over numbered vertices can be drawn if they name no vertex beyond the last one.
A triangle that names a vertex twice has no area, and a vertex that no triangle names has
no direction to face. A mesh without either has smooth normals, and each of them is the
sum of at least one normal of a triangle.

What is asked of the index buffer of a mesh is asked of the numbers in it. So it is enough
to know which numbers the triangles of the buffer stand for.
-/

namespace RenderAssets

/-- The triangles name vertices that are there, each of them three different ones, and
together all that are there. -/
structure Triangle.Cover (triangles : List (Triangle Nat)) (vertexCount : Nat) : Prop where
  inRange : ∀ triangle ∈ triangles, ∀ vertex ∈ triangle.corners, vertex < vertexCount
  distinct : ∀ triangle ∈ triangles, triangle.corners.Nodup
  covered : ∀ vertex < vertexCount, ∃ triangle ∈ triangles, vertex ∈ triangle.corners

/-- The corners of a triangle are three different vertices that are there. -/
theorem Triangle.proper_iff {triangle : Triangle Nat} {vertexCount : Nat} :
    (∀ vertex ∈ triangle.corners, vertex < vertexCount) ∧ triangle.corners.Nodup ↔
      (triangle.first < vertexCount ∧ triangle.second < vertexCount ∧
        triangle.third < vertexCount) ∧
      triangle.first ≠ triangle.second ∧ triangle.first ≠ triangle.third ∧
        triangle.second ≠ triangle.third := by
  simp [corners, and_assoc]

/-- Triangles that are proper one by one cover the vertices if they leave none out. -/
theorem Triangle.cover_of_proper {triangles : List (Triangle Nat)} {vertexCount : Nat}
    (proper : ∀ triangle ∈ triangles,
      (∀ vertex ∈ triangle.corners, vertex < vertexCount) ∧ triangle.corners.Nodup)
    (covered : ∀ vertex < vertexCount, ∃ triangle ∈ triangles, vertex ∈ triangle.corners) :
    Cover triangles vertexCount :=
  ⟨fun triangle listed => (proper triangle listed).1,
    fun triangle listed => (proper triangle listed).2, covered⟩

/-- A buffer of words stands for the vertices of its triangles. -/
theorem IndexBuffer.vertices_of_triangles (triangles : List (Triangle UInt32)) :
    (uint32 (Triangle.flatten triangles)).vertices =
      Triangle.flatten (triangles.map (Triangle.map UInt32.toNat)) :=
  (Triangle.flatten_map UInt32.toNat triangles).symm

/-- Cut into triangles, these are the layout that the words of the buffer stand for. -/
theorem IndexBuffer.cut_vertices_of_layout {triangles : List (Triangle UInt32)}
    {layout : List (Triangle Nat)} (numbers : triangles.map (Triangle.map UInt32.toNat) = layout) :
    Triangle.cut (uint32 (Triangle.flatten triangles)).vertices = layout := by
  rw [vertices_of_triangles, numbers, Triangle.cut_flatten]

variable {α : Type} [Scalar α]

/-- A vertex that is a corner of a triangle has an addend. -/
theorem SmoothNormals.addends_ne_nil {positions : Array (Vector3 α)}
    {triangles : List (Triangle Nat)} {triangle : Triangle Nat} (listed : triangle ∈ triangles)
    {vertex : Nat} (corner : vertex ∈ triangle.corners) :
    addends positions triangles vertex ≠ [] := by
  intro empty
  have none := List.flatMap_eq_nil_iff.mp empty triangle listed
  rw [List.replicate_eq_nil_iff] at none
  exact absurd corner (List.count_eq_zero.mp none)

namespace TriangleMesh

/-- A mesh has so many vertices, each with a position and a normal, and so many indices, and
its triangles cover the vertices. Smooth normals can be computed for it, and every one of
them is a sum that is not empty. -/
structure IndexSound (mesh : TriangleMesh α) (indices : IndexBuffer)
    (vertexCount indexCount : Nat) : Prop where
  positions_size : mesh.positions.size = vertexCount
  normals_size : ∃ normals, mesh.normals? = some normals ∧ normals.size = vertexCount
  indices_eq : mesh.indices? = some indices
  indices_length : indices.length = indexCount
  /-- No index is out of range. -/
  inRange : ∀ vertex ∈ indices.vertices, vertex < vertexCount
  /-- No triangle names a vertex twice, and no vertex is left out. -/
  cover : Triangle.Cover (Triangle.cut indices.vertices) vertexCount
  /-- Smooth normals are computed, and the normals of triangles go into each of them. -/
  smoothed : ∃ normals, mesh.withSmoothNormals = .ok (mesh.withNormals normals) ∧
    normals.size = vertexCount ∧ ∀ vertex < vertexCount,
      SmoothNormals.addends mesh.positions (Triangle.cut indices.vertices) vertex ≠ [] ∧
        normals[vertex]? = some ((SmoothNormals.addends mesh.positions
          (Triangle.cut indices.vertices) vertex).foldl (· + ·) 0).normalize

/-- A mesh is sound if its triangles stand for a layout that covers its vertices. -/
theorem indexSound_of_layout {mesh : TriangleMesh α} {triangles : List (Triangle UInt32)}
    {layout : List (Triangle Nat)} {vertexCount : Nat}
    (numbers : triangles.map (Triangle.map UInt32.toNat) = layout)
    (cover : Triangle.Cover layout vertexCount) (positions_size : mesh.positions.size = vertexCount)
    (normals_size : ∃ normals, mesh.normals? = some normals ∧ normals.size = vertexCount)
    (indices_eq : mesh.indices? = some (.uint32 (Triangle.flatten triangles))) :
    mesh.IndexSound (.uint32 (Triangle.flatten triangles)) vertexCount (3 * layout.length) := by
  have vertices : (IndexBuffer.uint32 (Triangle.flatten triangles)).vertices =
      Triangle.flatten layout := by
    rw [IndexBuffer.vertices_of_triangles, numbers]
  have cut := IndexBuffer.cut_vertices_of_layout numbers
  have length : (IndexBuffer.uint32 (Triangle.flatten triangles)).length = 3 * layout.length := by
    rw [← IndexBuffer.length_vertices, vertices, Triangle.length_flatten]
  have whole : (IndexBuffer.uint32 (Triangle.flatten triangles)).length % 3 = 0 := by
    rw [length]
    omega
  have inRange : ∀ vertex ∈ (IndexBuffer.uint32 (Triangle.flatten triangles)).vertices,
      vertex < vertexCount := by
    intro vertex named
    rw [vertices, Triangle.mem_flatten] at named
    obtain ⟨triangle, listed, corner⟩ := named
    exact cover.inRange triangle listed vertex corner
  obtain ⟨normals, accepted⟩ : ∃ normals, SmoothNormals.ofIndices
      (.uint32 (Triangle.flatten triangles)) mesh.positions = .ok normals :=
    ⟨_, SmoothNormals.ofIndices_eq_ok_iff.mpr ⟨whole, positions_size.symm ▸ inRange, rfl⟩⟩
  have computed : mesh.withSmoothNormals = .ok (mesh.withNormals normals) := by
    simp only [withSmoothNormals, smoothNormals, indices_eq, accepted]
  refine ⟨positions_size, normals_size, indices_eq, length, inRange, cut.symm ▸ cover,
    normals, computed, (SmoothNormals.size_of_accepted accepted).trans positions_size,
    fun vertex inside => ⟨?_, ?_⟩⟩
  · obtain ⟨triangle, listed, corner⟩ := cover.covered vertex inside
    exact SmoothNormals.addends_ne_nil (cut.symm ▸ listed) corner
  · exact SmoothNormals.getElem?_of_accepted accepted (positions_size.symm ▸ inside)

end TriangleMesh

end RenderAssets
