import Mathlib.Data.List.Forall2
import Mathlib.Data.List.Nodup
import RenderAssets.Proofs.Normals.UnrolledCorners
import RenderAssets.Proofs.Normals.VertexSums
import RenderAssets.Proofs.Scalar.StoredValues

/-!
# Smooth normals without shared vertices

Where no index occurs twice, a vertex is a corner of one triangle only. Its sum is zero plus
the normal of that triangle, and so its smooth normal is the flat normal of the triangle, up
to signs of zero. They cannot be asked to be the same: zero plus the negative zero is the
positive one.

Of the arithmetic no more is used than the laws of signed zeros.
-/

namespace RenderAssets

/-- A corner belongs to the triangle at a third of its place. -/
theorem Triangle.mem_corners_of_getElem? {κ : Type} {cornerList : List κ} {place : Nat}
    {corner : κ} {triangle : Triangle κ} (listed : cornerList[place]? = some corner)
    (formed : (cut cornerList)[place / 3]? = some triangle) : corner ∈ triangle.corners := by
  obtain ⟨first, second, third⟩ := getElem?_cut_eq_some_iff.mp formed
  have among : place = 3 * (place / 3) ∨ place = 3 * (place / 3) + 1 ∨
      place = 3 * (place / 3) + 2 := by omega
  rcases among with same | same | same
  · rw [same, first] at listed
    simp [corners, Option.some.inj listed]
  · rw [same, second] at listed
    simp [corners, Option.some.inj listed]
  · rw [same, third] at listed
    simp [corners, Option.some.inj listed]

namespace SmoothNormals

variable {α : Type} [Scalar α]

/-- Where no corner is shared, a vertex has the normal of its one triangle for its only
addend. -/
theorem addends_eq_singleton {positions : Array (Vector3 α)} {triangles : List (Triangle Nat)}
    (unshared : (Triangle.flatten triangles).Nodup) {triangle : Triangle Nat}
    (listed : triangle ∈ triangles) {vertex : Nat} (corner : vertex ∈ triangle.corners) :
    addends positions triangles vertex =
      [weightedNormal (triangle.map (cornerPosition positions))] := by
  induction triangles with
  | nil => simp at listed
  | cons front rest inductionHypothesis =>
    rw [Triangle.flatten, List.flatMap_cons, ← Triangle.flatten, List.nodup_append] at unshared
    obtain ⟨once, restUnshared, apart⟩ := unshared
    rw [addends, List.flatMap_cons, ← addends]
    rcases List.mem_cons.mp listed with rfl | later
    · rw [List.count_eq_one_of_mem once corner, addends_eq_nil fun later =>
        apart vertex corner vertex later rfl]
      rfl
    · have elsewhere : vertex ∉ front.corners := fun here =>
        apart vertex here vertex (Triangle.mem_flatten.mpr ⟨triangle, later, corner⟩) rfl
      rw [List.count_eq_zero_of_not_mem elsewhere, inductionHypothesis restUnshared later]
      rfl

/-- The normal of such a vertex is alike to the flat normal of its triangle. -/
theorem vertexNormal_alike (laws : SignedZeroLaws α) {positions : Array (Vector3 α)}
    {triangles : List (Triangle Nat)} (unshared : (Triangle.flatten triangles).Nodup)
    {triangle : Triangle Nat} (listed : triangle ∈ triangles) {vertex : Nat}
    (corner : vertex ∈ triangle.corners) :
    (vertexNormal positions triangles vertex).Alike
      (FlatNormals.faceNormal (triangle.map (cornerPosition positions))) := by
  rw [vertexNormal, addends_eq_singleton unshared listed corner]
  exact laws.normalize _ _ ⟨laws.zero_add _, laws.zero_add _, laws.zero_add _⟩

section Unrolled

variable {indices : IndexBuffer} {positions smooth flat : Array (Vector3 α)}

/-- At a corner of an accepted list without shared vertices, the smooth normal of the vertex
is alike to the flat normal of the corner. -/
theorem normal_at_corner_alike (laws : SignedZeroLaws α)
    (accepted : ofIndices indices positions = .ok smooth)
    (unrolled : FlatNormals.ofPositions (indices.unroll positions) = .ok flat)
    (unshared : indices.vertices.Nodup) {corner vertex : Nat}
    (named : indices.vertices[corner]? = some vertex) :
    ∃ smoothNormal flatNormal : Vector3 α, smooth[vertex]? = some smoothNormal ∧
      flat[corner]? = some flatNormal ∧ smoothNormal.Alike flatNormal := by
  have corners := flatten_cut_of_accepted accepted
  obtain ⟨whole, inRange, _⟩ := ofIndices_eq_ok_iff.mp accepted
  obtain ⟨inside, _⟩ := List.getElem?_eq_some_iff.mp named
  have formed : corner / 3 < (Triangle.cut indices.vertices).length := by
    rw [Triangle.length_cut, IndexBuffer.length_vertices]
    rw [IndexBuffer.length_vertices] at inside
    omega
  have there := List.getElem?_eq_getElem formed
  refine ⟨_, _, getElem?_of_accepted accepted (inRange vertex (List.mem_of_getElem? named)), ?_,
    vertexNormal_alike laws (by rwa [corners]) (List.getElem_mem formed)
      (Triangle.mem_corners_of_getElem? named there)⟩
  rw [FlatNormals.getElem?_of_unrolled inRange unrolled, there]
  rfl

/-- If the indices count the vertices, this is so for the whole lists. -/
theorem normals_alike_of_range (laws : SignedZeroLaws α)
    (accepted : ofIndices indices positions = .ok smooth)
    (unrolled : FlatNormals.ofPositions (indices.unroll positions) = .ok flat)
    (counting : indices.vertices = List.range positions.size) :
    List.Forall₂ Vector3.Alike smooth.toList flat.toList := by
  obtain ⟨whole, inRange, final⟩ := ofIndices_eq_ok_iff.mp accepted
  have counted : positions.size = indices.length := by
    rw [← IndexBuffer.length_vertices, counting, List.length_range]
  have sizes : smooth.size = positions.size := by simp [← final]
  refine List.forall₂_iff_get.mpr ⟨?_, fun vertex smoothInside flatInside => ?_⟩
  · rw [Array.length_toList, Array.length_toList, sizes,
      FlatNormals.size_of_accepted unrolled, IndexBuffer.size_unroll inRange, counted]
  · have named : indices.vertices[vertex]? = some vertex := by
      rw [counting, List.getElem?_range]
      rwa [Array.length_toList, sizes] at smoothInside
    obtain ⟨smoothNormal, flatNormal, smoothHere, flatHere, same⟩ :=
      normal_at_corner_alike laws accepted unrolled (counting ▸ List.nodup_range) named
    rw [← Array.getElem?_toList] at smoothHere flatHere
    obtain ⟨_, rfl⟩ := List.getElem?_eq_some_iff.mp smoothHere
    obtain ⟨_, rfl⟩ := List.getElem?_eq_some_iff.mp flatHere
    exact same

end Unrolled

/-- Without shared vertices smooth normals are the flat ones, up to signs of zero: at every
corner of an index list in range that names no vertex twice, and as whole lists if the
indices count the vertices. -/
theorem smooth_normals_without_sharing (laws : SignedZeroLaws α) (indices : IndexBuffer)
    (positions : Array (Vector3 α)) (whole : indices.length % 3 = 0)
    (inRange : ∀ vertex ∈ indices.vertices, vertex < positions.size)
    (unshared : indices.vertices.Nodup) :
    ∃ smooth flat : Array (Vector3 α), ofIndices indices positions = .ok smooth ∧
      FlatNormals.ofPositions (indices.unroll positions) = .ok flat ∧
      (∀ corner vertex : Nat, indices.vertices[corner]? = some vertex →
        ∃ smoothNormal flatNormal : Vector3 α, smooth[vertex]? = some smoothNormal ∧
          flat[corner]? = some flatNormal ∧ smoothNormal.Alike flatNormal) ∧
      (indices.vertices = List.range positions.size →
        FlatNormals.ofPositions positions = .ok flat ∧
          List.Forall₂ Vector3.Alike smooth.toList flat.toList) := by
  have accepted := ofIndices_eq_ok_iff.mpr ⟨whole, inRange, rfl⟩
  obtain ⟨flat, unrolled⟩ := FlatNormals.exists_of_unrolled whole inRange
  refine ⟨_, flat, accepted, unrolled,
    fun corner vertex => normal_at_corner_alike laws accepted unrolled unshared,
    fun counting => ⟨?_, normals_alike_of_range laws accepted unrolled counting⟩⟩
  rw [← unrolled, IndexBuffer.unroll_of_range counting]

/-- Two triangles that lie along an edge without a common vertex. -/
def twoTriangles : Array (Vector3 FloatWord) :=
  #[⟨-1, 0, 0⟩, ⟨0, -1, 0⟩, ⟨0, 1, 0⟩, ⟨0, -1, 0⟩, ⟨0, 1, 0⟩, ⟨1, 0, 0⟩]

/-- Their smooth normals are the flat ones, up to signs of zero. -/
theorem twoTriangles_smooth_normals :
    ∃ smooth flat, ofIndices (.uint16 [0, 1, 2, 3, 4, 5]) twoTriangles = .ok smooth ∧
      FlatNormals.ofPositions twoTriangles = .ok flat ∧
      List.Forall₂ Vector3.Alike smooth.toList flat.toList := by
  obtain ⟨smooth, flat, accepted, _, _, counted⟩ :=
    smooth_normals_without_sharing FloatWord.signedZeroLaws
      (.uint16 [0, 1, 2, 3, 4, 5]) twoTriangles (by decide) (by decide) (by decide)
  obtain ⟨ofPositions, alike⟩ := counted (by decide)
  exact ⟨smooth, flat, accepted, ofPositions, alike⟩

/-- A sign does differ: at the first corner of the first of them the flat normal has the
negative zero. -/
example :
    let positions : Array (Vector3 FloatWord) := #[⟨-1, 0, 0⟩, ⟨0, -1, 0⟩, ⟨0, 1, 0⟩]
    (FlatNormals.ofPositions positions).toOption.bind (·[0]?.map Vector3.key) =
        some ⟨Scalar.negativeZeroBits, 0, 0x3f800000⟩ ∧
      (ofIndices (.uint16 [0, 1, 2]) positions).toOption.bind (·[0]?.map Vector3.key) =
        some ⟨0, 0, 0x3f800000⟩ := by
  decide +kernel

end SmoothNormals

end RenderAssets
