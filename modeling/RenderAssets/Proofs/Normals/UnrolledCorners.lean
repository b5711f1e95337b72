import Mathlib.Data.List.Basic
import RenderAssets.Proofs.Normals.TriangleRuns

/-!
# Flat normals of unrolled corners

Writing down the position of every corner makes an indexed triangle list one in which no
vertex is shared, and flat normals can be computed for it. If no index is out of range,
each corner then has the normal of the triangle it belongs to, and three corners in a row
belong to one triangle.
-/

namespace RenderAssets

variable {α : Type} [Scalar α]

/-- The position of every corner. An index of no vertex has none. -/
def IndexBuffer.unroll (indices : IndexBuffer) (positions : Array (Vector3 α)) :
    Array (Vector3 α) :=
  (indices.vertices.filterMap (positions[·]?)).toArray

/-- Where no index is out of range, every corner is written down. -/
theorem IndexBuffer.unroll_eq_map {indices : IndexBuffer} {positions : Array (Vector3 α)}
    (inRange : ∀ vertex ∈ indices.vertices, vertex < positions.size) :
    (indices.unroll positions).toList = indices.vertices.map (cornerPosition positions) := by
  have found (vertex : Nat) (named : vertex ∈ indices.vertices) :
      positions[vertex]? = (some ∘ cornerPosition positions) vertex :=
    getElem?_eq_cornerPosition (inRange vertex named)
  rw [unroll, List.filterMap_congr found, List.filterMap_eq_map]

/-- There is one position for every index then. -/
theorem IndexBuffer.size_unroll {indices : IndexBuffer} {positions : Array (Vector3 α)}
    (inRange : ∀ vertex ∈ indices.vertices, vertex < positions.size) :
    (indices.unroll positions).size = indices.length := by
  rw [← Array.length_toList, unroll_eq_map inRange, List.length_map, length_vertices]

/-- Indices that count the vertices write down the positions as they are. -/
theorem IndexBuffer.unroll_of_range {indices : IndexBuffer} {positions : Array (Vector3 α)}
    (counting : indices.vertices = List.range positions.size) :
    indices.unroll positions = positions := by
  have inRange : ∀ vertex ∈ indices.vertices, vertex < positions.size := by
    rw [counting]
    exact fun vertex => List.mem_range.mp
  apply Array.toList_inj.mp
  rw [unroll_eq_map inRange, counting]
  apply List.ext_getElem?
  intro vertex
  have stored : positions.toList[vertex]? = positions[vertex]? := Array.getElem?_toList
  rw [List.getElem?_map, stored]
  by_cases inside : vertex < positions.size
  · rw [List.getElem?_range inside, getElem?_eq_cornerPosition inside]
    rfl
  · simp [inside]

namespace FlatNormals

/-- The normals of some triangles are repeated for the corners. -/
theorem listed_eq_repeated (triangles : List (Triangle (Vector3 α))) :
    listed triangles = (triangles.map faceNormal).flatMap (List.replicate 3) := by
  rw [listed, List.flatMap_map]

/-- Every triangle lists its normal three times. -/
theorem length_listed (triangles : List (Triangle (Vector3 α))) :
    (listed triangles).length = 3 * triangles.length := by
  rw [listed_eq_repeated, Triangle.length_repeated, List.length_map]

/-- The normal at a corner is that of the triangle it belongs to. -/
theorem getElem?_listed (triangles : List (Triangle (Vector3 α))) (corner : Nat) :
    (listed triangles)[corner]? = triangles[corner / 3]?.map faceNormal := by
  rw [listed_eq_repeated, Triangle.getElem?_repeated, List.getElem?_map]

/-- Flat normals are computed exactly for whole triangles, and then they are those that the
triangles list. -/
theorem ofPositions_eq_ok_iff {positions flat : Array (Vector3 α)} :
    ofPositions positions = .ok flat ↔ positions.size % 3 = 0 ∧
      (listed (Triangle.cut positions.toList)).toArray = flat := by
  by_cases whole : positions.size % 3 = 0
  · have fits : (List.replicate positions.size (0 : Vector3 α)).length =
        3 * (Triangle.cut positions.toList).length := by
      rw [List.length_replicate, Triangle.length_cut, Array.length_toList]
      omega
    have painted := paint_eq_listed (Triangle.cut positions.toList) _ fits
    simp [ofPositions, fill, whole, Filling.result, painted]
  · simp [ofPositions, fill, whole, Filling.result]

section Accepted

variable {positions flat : Array (Vector3 α)} (accepted : ofPositions positions = .ok flat)
include accepted

/-- There is one normal for every corner. -/
theorem size_of_accepted : flat.size = positions.size := by
  obtain ⟨whole, rfl⟩ := ofPositions_eq_ok_iff.mp accepted
  rw [List.size_toArray, length_listed, Triangle.length_cut, Array.length_toList]
  omega

/-- Each corner has the normal of the triangle at a third of its place. -/
theorem getElem?_of_accepted (corner : Nat) :
    flat[corner]? = (Triangle.cut positions.toList)[corner / 3]?.map faceNormal := by
  obtain ⟨whole, rfl⟩ := ofPositions_eq_ok_iff.mp accepted
  rw [List.getElem?_toArray, getElem?_listed]

/-- It is the normal of the three positions that make up the triangle. -/
theorem normal_at_corner {corner : Nat} (inside : corner < positions.size) :
    ∃ first second third : Vector3 α, positions[3 * (corner / 3)]? = some first ∧
      positions[3 * (corner / 3) + 1]? = some second ∧
      positions[3 * (corner / 3) + 2]? = some third ∧
      flat[corner]? = some (Vector3.triangleNormal first second third).normalize := by
  obtain ⟨whole, _⟩ := ofPositions_eq_ok_iff.mp accepted
  have formed : corner / 3 < (Triangle.cut positions.toList).length := by
    rw [Triangle.length_cut, Array.length_toList]
    omega
  have there := List.getElem?_eq_getElem formed
  obtain ⟨first, second, third⟩ := Triangle.getElem?_cut_eq_some_iff.mp there
  simp only [Array.getElem?_toList] at first second third
  refine ⟨_, _, _, first, second, third, ?_⟩
  rw [getElem?_of_accepted accepted, there]
  rfl

end Accepted

/-- Whole triangles without a missing vertex have flat normals when they are unrolled. -/
theorem exists_of_unrolled {indices : IndexBuffer} {positions : Array (Vector3 α)}
    (whole : indices.length % 3 = 0)
    (inRange : ∀ vertex ∈ indices.vertices, vertex < positions.size) :
    ∃ flat, ofPositions (indices.unroll positions) = .ok flat := by
  have unrolledWhole : (indices.unroll positions).size % 3 = 0 := by
    rw [IndexBuffer.size_unroll inRange, whole]
  exact ⟨_, ofPositions_eq_ok_iff.mpr ⟨unrolledWhole, rfl⟩⟩

/-- The corners of an index list in range have the normals of its triangles. -/
theorem getElem?_of_unrolled {indices : IndexBuffer} {positions flat : Array (Vector3 α)}
    (inRange : ∀ vertex ∈ indices.vertices, vertex < positions.size)
    (unrolled : ofPositions (indices.unroll positions) = .ok flat) (corner : Nat) :
    flat[corner]? = (Triangle.cut indices.vertices)[corner / 3]?.map
      fun triangle => faceNormal (triangle.map (cornerPosition positions)) := by
  rw [getElem?_of_accepted unrolled, IndexBuffer.unroll_eq_map inRange, Triangle.cut_map,
    List.getElem?_map, Option.map_map]
  rfl

end FlatNormals

end RenderAssets
