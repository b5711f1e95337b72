import RenderAssets.Proofs.Normals.TriangleRuns

/-!
# The sum of one vertex

Smooth normals are added up for all vertices at once, three updates for each triangle. Seen
from one vertex only its own addends matter: the normals of the triangles in their order,
each as often as the vertex is a corner of the triangle. What happens to other vertices in
between leaves no trace.

Smooth normals are computed exactly if the indices form whole triangles and none is out of
range, and then there is one normal for every vertex: its addends, added to the zero vector
from the first to the last, and the sum normalised.
-/

namespace RenderAssets.SmoothNormals

variable {α : Type} [Scalar α]

/-- What is added to a vertex: the normals of the triangles in order, each once for every
corner that is the vertex. -/
def addends (positions : Array (Vector3 α)) (triangles : List (Triangle Nat)) (vertex : Nat) :
    List (Vector3 α) :=
  triangles.flatMap fun triangle =>
    List.replicate (triangle.corners.count vertex)
      (weightedNormal (triangle.map (cornerPosition positions)))

/-- A vertex that is no corner has no addends. -/
theorem addends_eq_nil {positions : Array (Vector3 α)} {triangles : List (Triangle Nat)}
    {vertex : Nat} (apart : vertex ∉ Triangle.flatten triangles) :
    addends positions triangles vertex = [] := by
  rw [Triangle.mem_flatten] at apart
  refine List.flatMap_eq_nil_iff.mpr fun triangle listed => ?_
  rw [List.count_eq_zero_of_not_mem fun corner => apart ⟨triangle, listed, corner⟩,
    List.replicate_zero]

/-- The normal of a vertex: its addends, added up from zero, and normalised. -/
def vertexNormal (positions : Array (Vector3 α)) (triangles : List (Triangle Nat))
    (vertex : Nat) : Vector3 α :=
  ((addends positions triangles vertex).foldl (· + ·) 0).normalize

/-- Adding at the corners of a triangle adds to a vertex once for every corner it is, and
leaves the vertices that are no corner alone. -/
theorem getElem?_addAtCorners (sums : Array (Vector3 α)) (triangle : Triangle Nat)
    (normal : Vector3 α) (vertex : Nat) :
    (addAtCorners sums triangle normal)[vertex]? = sums[vertex]?.map fun sum =>
      (List.replicate (triangle.corners.count vertex) normal).foldl (· + ·) sum := by
  simp only [addAtCorners, Array.getElem?_modify, Triangle.corners, List.count_cons,
    List.count_nil, beq_iff_eq]
  split <;> split <;> split <;> cases sums[vertex]? <;> rfl

/-- Add the normals of triangles that are in place to the sums of their corners. -/
def addAll (positions : Array (Vector3 α)) (triangles : List (Triangle Nat))
    (sums : Array (Vector3 α)) : Array (Vector3 α) :=
  triangles.foldl (fun sums triangle =>
    addAtCorners sums triangle (weightedNormal (triangle.map (cornerPosition positions)))) sums

/-- A vertex receives its addends and nothing else. The induction is on the triangles still
to come; what has been added so far is in the sums. -/
theorem getElem?_addAll (positions : Array (Vector3 α)) (triangles : List (Triangle Nat))
    (sums : Array (Vector3 α)) (vertex : Nat) :
    (addAll positions triangles sums)[vertex]? = sums[vertex]?.map fun sum =>
      (addends positions triangles vertex).foldl (· + ·) sum := by
  induction triangles generalizing sums with
  | nil => simp [addAll, addends]
  | cons triangle rest inductionHypothesis =>
    have later := inductionHypothesis (addAtCorners sums triangle
      (weightedNormal (triangle.map (cornerPosition positions))))
    rw [getElem?_addAtCorners, Option.map_map] at later
    simpa only [addAll, addends, List.flatMap_cons, List.foldl_append, Function.comp_def,
      List.foldl_cons] using later

/-- The sums that start from zero everywhere, normalised, are the normals of the vertices. -/
theorem map_normalize_addAll (positions : Array (Vector3 α)) (triangles : List (Triangle Nat)) :
    (addAll positions triangles (Array.replicate positions.size 0)).map Vector3.normalize =
      (Array.range positions.size).map (vertexNormal positions triangles) := by
  apply Array.ext_getElem?
  intro vertex
  rw [Array.getElem?_map, getElem?_addAll, Array.getElem?_map]
  by_cases inside : vertex < positions.size
  · simp [inside, vertexNormal]
  · simp [inside]

/-- Smooth normals are computed exactly if the indices form whole triangles and none is out
of range, and then they are the normals of the vertices. -/
theorem ofIndices_eq_ok_iff {indices : IndexBuffer} {positions normals : Array (Vector3 α)} :
    ofIndices indices positions = .ok normals ↔
      indices.length % 3 = 0 ∧ (∀ vertex ∈ indices.vertices, vertex < positions.size) ∧
        (Array.range positions.size).map
          (vertexNormal positions (Triangle.cut indices.vertices)) = normals := by
  rw [ofIndices_eq_overIndices, overIndices_eq_ok_iff, ← map_normalize_addAll, addAll]

section Accepted

variable {indices : IndexBuffer} {positions normals : Array (Vector3 α)}
  (accepted : ofIndices indices positions = .ok normals)
include accepted

/-- The triangles of an accepted list have all its indices for corners. -/
theorem flatten_cut_of_accepted :
    Triangle.flatten (Triangle.cut indices.vertices) = indices.vertices :=
  IndexBuffer.flatten_cut_vertices (ofIndices_eq_ok_iff.mp accepted).1

/-- There is one normal for every vertex. -/
theorem size_of_accepted : normals.size = positions.size := by
  obtain ⟨_, _, rfl⟩ := ofIndices_eq_ok_iff.mp accepted
  rw [Array.size_map, Array.size_range]

/-- Each vertex has its own normal. -/
theorem getElem?_of_accepted {vertex : Nat} (inside : vertex < positions.size) :
    normals[vertex]? = some (vertexNormal positions (Triangle.cut indices.vertices) vertex) := by
  obtain ⟨_, _, rfl⟩ := ofIndices_eq_ok_iff.mp accepted
  simp [inside]

end Accepted

end RenderAssets.SmoothNormals
