import RenderAssets.Proofs.Normals.FilledBuffers

/-!
# Smooth normals, vertex by vertex

What a vertex receives can be said without any buffer: go through the triangles in index
order, and through the three corners of each, and add the weighted normal of the triangle
whenever the corner is the vertex. Smooth normals are these sums, normalised, with the
additions made in this very order, so that nothing depends on how the scalars are rounded.
A triangle may name a vertex twice or three times, and is added as often.
-/

namespace RenderAssets.SmoothNormals

variable {α : Type} [Scalar α]

/-- The sum of a vertex after one more triangle, corner by corner. -/
def addTriangle (positions : Array (Vector3 α)) (vertex : Nat) (sum : Vector3 α)
    (triangle : Triangle Nat) : Vector3 α :=
  triangle.corners.foldl (fun sum corner =>
    if corner = vertex then
      sum + Vector3.triangleNormal (cornerPosition positions triangle.first)
        (cornerPosition positions triangle.second) (cornerPosition positions triangle.third)
    else sum) sum

/-- The sum of a vertex after some triangles, from zero. -/
def vertexSum (positions : Array (Vector3 α)) (triangles : List (Triangle Nat)) (vertex : Nat) :
    Vector3 α :=
  triangles.foldl (addTriangle positions vertex) 0

/-- Going through corners adds as often as the vertex occurs among them. -/
theorem foldl_corners (vertex : Nat) (normal : Vector3 α) (corners : List Nat)
    (sum : Vector3 α) :
    corners.foldl (fun sum corner => if corner = vertex then sum + normal else sum) sum =
      (List.replicate (corners.count vertex) normal).foldl (· + ·) sum := by
  induction corners generalizing sum with
  | nil => rfl
  | cons corner rest inductionHypothesis =>
    rw [List.foldl_cons, inductionHypothesis]
    by_cases own : corner = vertex
    · rw [if_pos own, own, List.count_cons_self, List.replicate_succ, List.foldl_cons]
    · rw [if_neg own, List.count_cons_of_ne own]

/-- Going through triangles adds up the addends of the vertex. -/
theorem foldl_addTriangle (positions : Array (Vector3 α)) (triangles : List (Triangle Nat))
    (vertex : Nat) (sum : Vector3 α) :
    triangles.foldl (addTriangle positions vertex) sum =
      (addends positions triangles vertex).foldl (· + ·) sum := by
  induction triangles generalizing sum with
  | nil => rfl
  | cons triangle rest inductionHypothesis =>
    have split : addends positions (triangle :: rest) vertex =
        List.replicate (triangle.corners.count vertex)
          (weightedNormal (triangle.map (cornerPosition positions))) ++
            addends positions rest vertex := List.flatMap_cons
    rw [List.foldl_cons, inductionHypothesis, addTriangle, foldl_corners, split,
      List.foldl_append]
    rfl

/-- The normal of a vertex is its sum, normalised. -/
theorem vertexNormal_eq (positions : Array (Vector3 α)) (triangles : List (Triangle Nat))
    (vertex : Nat) :
    vertexNormal positions triangles vertex =
      (vertexSum positions triangles vertex).normalize := by
  rw [vertexNormal, vertexSum, foldl_addTriangle]

/-- A vertex that no triangle mentions keeps the zero vector. -/
theorem vertexSum_of_unmentioned (positions : Array (Vector3 α))
    {triangles : List (Triangle Nat)} {vertex : Nat}
    (apart : vertex ∉ Triangle.flatten triangles) : vertexSum positions triangles vertex = 0 := by
  rw [vertexSum, foldl_addTriangle, addends_eq_nil apart]
  rfl

/-- Smooth normals are the normalised sums of the vertices. For indices in range that form
whole triangles, and a buffer with one entry for each position, filling the buffer goes
through and leaves these in it; a vertex that no index names is left with the normalised zero
vector. -/
theorem smooth_normals_are_vertex_sums (indices : IndexBuffer)
    (positions buffer : Array (Vector3 α)) (whole : indices.length % 3 = 0)
    (inRange : ∀ vertex ∈ indices.vertices, vertex < positions.size)
    (sized : buffer.size = positions.size) :
    (fill indices positions buffer).failure? = none ∧
      (fill indices positions buffer).buffer.size = positions.size ∧
      ∀ vertex < positions.size,
        (fill indices positions buffer).buffer[vertex]? =
            some (vertexSum positions (Triangle.cut indices.vertices) vertex).normalize ∧
          (vertex ∉ indices.vertices →
            (fill indices positions buffer).buffer[vertex]? =
              some (0 : Vector3 α).normalize) := by
  obtain ⟨through, size, allocated⟩ :=
    (allOrNothing indices positions).filled buffer whole inRange sized
  refine ⟨through, size, fun vertex inside => ?_⟩
  have summed : (fill indices positions buffer).buffer[vertex]? =
      some (vertexSum positions (Triangle.cut indices.vertices) vertex).normalize := by
    rw [getElem?_of_accepted allocated inside, vertexNormal_eq]
  refine ⟨summed, fun unnamed => ?_⟩
  rw [← IndexBuffer.flatten_cut_vertices whole] at unnamed
  rw [summed, vertexSum_of_unmentioned positions unnamed]

/-- The corners of a triangle, and a point that nothing mentions. -/
def cornerPositions : Array (Vector3 Float32) := #[⟨0, 0, 0⟩, ⟨2, 0, 0⟩, ⟨0, 2, 0⟩, ⟨5, 5, 5⟩]

/-- The triangle, and one that lies along its edge and names a vertex twice. -/
def foldedTriangle : IndexBuffer := .uint8 [0, 1, 2, 2, 1, 2]

/-- The vertex that the second triangle names twice receives that one's normal twice, and the
point left over has no direction, whatever the buffer held. -/
theorem foldedTriangle_vertex_sums :
    let buffer : Array (Vector3 Float32) := Array.replicate 4 ⟨1, 2, 3⟩
    let filled := (fill foldedTriangle cornerPositions buffer).buffer
    let large : Vector3 Float32 := .triangleNormal ⟨0, 0, 0⟩ ⟨2, 0, 0⟩ ⟨0, 2, 0⟩
    let flat : Vector3 Float32 := .triangleNormal ⟨0, 2, 0⟩ ⟨2, 0, 0⟩ ⟨0, 2, 0⟩
    filled[2]? = some (0 + large + flat + flat).normalize ∧
      filled[3]? = some (0 : Vector3 Float32).normalize ∧
      (0 : Vector3 Float32).normalize.key = ⟨Scalar.nanBits, Scalar.nanBits, Scalar.nanBits⟩ := by
  intro buffer filled large flat
  obtain ⟨_, _, sums⟩ := smooth_normals_are_vertex_sums foldedTriangle cornerPositions buffer
    (by decide) (by decide) (by decide)
  exact ⟨(sums 2 (by decide)).1, (sums 3 (by decide)).2 (by decide), by decide +kernel⟩

end RenderAssets.SmoothNormals
