import RenderAssets.Proofs.Shape.ClosedCylinder

/-!
# Fans around the side of the cylinder

A vertex of the side lies between two quads. A quad is split into two triangles along one of
its diagonals; both of them have the vertices at the ends of the diagonal as corners, and
only one has each of the other two. Neighbouring quads are split along different diagonals,
so that their common vertices are ends of both diagonals or of neither, and as many triangles
come from one quad as from the other. The quads have the same area, and so have the two
halves of each.

That neighbours are split differently is seen from the numbers of their segments, but for the
last quad and the first. These are neighbours too, and it takes an even number of segments
for them to be split differently.
-/

namespace RenderAssets

/-- How many of the triangles have a vertex as a corner. -/
def Triangle.fanSize {κ : Type} [DecidableEq κ] (vertex : κ) (triangles : List (Triangle κ)) :
    Nat :=
  triangles.countP fun triangle => vertex ∈ triangle.corners

/-- There are none if it is a corner of none of them. -/
theorem Triangle.fanSize_eq_zero_iff {κ : Type} [DecidableEq κ] {vertex : κ}
    {triangles : List (Triangle κ)} :
    fanSize vertex triangles = 0 ↔ ∀ triangle ∈ triangles, vertex ∉ triangle.corners := by
  simp [fanSize]

namespace Shape.Cylinder

open Triangle

/-- The triangles of the caps, one for every segment of either cap. -/
def caps (triangles : List (Triangle Nat)) (count : Nat) : List (Triangle Nat) :=
  triangles.take (2 * count)

/-- The triangles of the quad over a segment. The quads stand behind the caps. -/
def quad (triangles : List (Triangle Nat)) (count segment : Nat) : List (Triangle Nat) :=
  (triangles.drop (2 * count + 2 * segment)).take 2

/-- A vertex at a segment is a corner of as many triangles of the quad ahead of it as of the
one behind, of one each or of two. It is a corner of no other triangle. -/
structure BalancedFan (triangles : List (Triangle Nat)) (count segment vertex : Nat) : Prop where
  balanced : fanSize vertex (quad triangles count segment) =
    fanSize vertex (quad triangles count (preceding count segment))
  oneOrTwo : fanSize vertex (quad triangles count segment) = 1 ∨
    fanSize vertex (quad triangles count segment) = 2
  elsewhere : ∀ other < count, other ≠ segment → other ≠ preceding count segment →
    fanSize vertex (quad triangles count other) = 0
  caps : fanSize vertex (caps triangles count) = 0

/-- How many triangles of each of its quads a vertex of the side is a corner of. -/
def fanShare (segment : Nat) : End → Nat
  | .bottom => 2 - segment % 2
  | .top => 1 + segment % 2

section Parts

variable {count segment : Nat}

/-- Parts of equal length are found by their places in the whole. -/
theorem take_drop_flatMap {β γ : Type} {entries : β → List γ} {size : Nat}
    (alike : ∀ part, (entries part).length = size) (parts : List β) {place : Nat} {part : β}
    (there : parts[place]? = some part) :
    ((parts.flatMap entries).drop (size * place)).take size = entries part := by
  induction parts generalizing place with
  | nil => simp at there
  | cons first rest inductionHypothesis =>
    rw [List.flatMap_cons]
    cases place with
    | zero =>
      obtain rfl : first = part := by simpa using there
      rw [Nat.mul_zero, List.drop_zero, List.take_left' (alike first)]
    | succ place =>
      rw [List.getElem?_cons_succ] at there
      rw [Nat.mul_succ, Nat.add_comm, ← List.drop_drop, List.drop_left' (alike first)]
      exact inductionHypothesis there

/-- The triangles of the layout that stand before the quads are those of the caps. -/
theorem caps_layout (count : Nat) :
    caps (layout count) count =
      (List.range count).map (capLayout count .bottom) ++
        (List.range count).map (capLayout count .top) := by
  apply List.take_left'
  simp only [List.length_append, List.length_map, List.length_range]
  omega

/-- The quad over a segment is found at its place in the layout. -/
theorem quad_layout (inside : segment < count) :
    quad (layout count) count segment = sideLayout count segment := by
  have front : ((List.range count).map (capLayout count .bottom) ++
      (List.range count).map (capLayout count .top)).length = 2 * count := by
    simp only [List.length_append, List.length_map, List.length_range]
    omega
  rw [quad, ← List.drop_drop, layout, List.drop_left' front]
  exact take_drop_flatMap (length_sideLayout count) (List.range count)
    (List.getElem?_range inside)

end Parts

section Corners

variable {count segment : Nat}

/-- What holds at some end holds at the bottom or at the top. -/
theorem End.exists_iff {holds : End → Prop} :
    (∃ side, holds side) ↔ holds .bottom ∨ holds .top := by
  constructor
  · rintro ⟨side, held⟩
    cases side with
    | bottom => exact .inl held
    | top => exact .inr held
  · rintro (held | held)
    · exact ⟨.bottom, held⟩
    · exact ⟨.top, held⟩

/-- A vertex on a ring of the side is known by its end and its segment. -/
theorem ringNumber_eq_iff (inside : segment < count) {other : Nat} (otherInside : other < count)
    (side otherSide : End) :
    ringNumber count side segment = ringNumber count otherSide other ↔
      side = otherSide ∧ segment = other := by
  cases side <;> cases otherSide <;> simp [ringNumber] <;> omega

/-- The corners of a quad are at its segment, or at the one that follows. -/
theorem corner_of_quad {triangle : Triangle Nat} (listed : triangle ∈ sideLayout count segment)
    {vertex : Nat} (corner : vertex ∈ triangle.corners) :
    ∃ side, vertex = ringNumber count side segment ∨
      vertex = ringNumber count side ((segment + 1) % count) := by
  rw [End.exists_iff]
  rw [sideLayout] at listed
  split at listed
  all_goals
    simp only [List.mem_cons, List.not_mem_nil, or_false] at listed
    rcases listed with rfl | rfl
    all_goals
      simp only [corners, List.mem_cons, List.not_mem_nil, or_false] at corner
      rcases corner with rfl | rfl | rfl <;> simp only [true_or, or_true]

/-- A vertex on a ring of the side is no corner of a cap. -/
theorem ringNumber_not_mem_capLayout {other : Nat} (otherInside : other < count)
    (side otherSide : End) (segment : Nat) :
    ringNumber count side segment ∉ (capLayout count otherSide other).corners := by
  have next : (other + 1) % count < count := Nat.mod_lt _ (by omega)
  cases side <;> cases otherSide <;>
    simp only [capLayout, corners, ringNumber, rimNumber, centerNumber, List.mem_cons,
      List.not_mem_nil, or_false, not_or] <;> omega

/-- So many triangles of a quad have a vertex at its segment as a corner, and so many a vertex
at the segment that follows. -/
theorem fanSize_sideLayout (several : 2 ≤ count) (inside : segment < count) (side : End) :
    fanSize (ringNumber count side segment) (sideLayout count segment) = fanShare segment side ∧
      fanSize (ringNumber count side ((segment + 1) % count)) (sideLayout count segment) =
        fanShare (segment + 1) side := by
  have next : (segment + 1) % count < count := Nat.mod_lt _ (by omega)
  have apart : (segment + 1) % count ≠ segment := by
    have following := following_cases inside
    omega
  have other : (segment + 1) % 2 = 1 - segment % 2 := by omega
  rcases Nat.mod_two_eq_zero_or_one segment with parity | parity <;> cases side
  all_goals
    simp [fanSize, fanShare, sideLayout, corners, ringNumber_eq_iff, inside, next, apart,
      apart.symm, parity, other]

/-- The share only depends on whether the segment is even, and that alternates around the
axis. -/
theorem fanShare_following (even : count % 2 = 0) (segment : Nat) (side : End) :
    fanShare ((segment + 1) % count) side = fanShare (segment + 1) side := by
  cases side <;> rw [fanShare, fanShare, following_mod_two even]

/-- With an even number of segments, all vertices of the side have balanced fans. -/
theorem layout_balancedFan (several : 2 ≤ count) (even : count % 2 = 0) (inside : segment < count)
    (side : End) : BalancedFan (layout count) count segment (ringNumber count side segment) := by
  have ahead := (fanSize_sideLayout several inside side).1
  have before : preceding count segment < count := Nat.mod_lt _ (by omega)
  have follows : (preceding count segment + 1) % count = segment :=
    (preceding_eq_iff inside before).mp rfl
  -- Seen from the quad before, the vertex is at the segment that follows.
  have behind : fanSize (ringNumber count side segment)
      (sideLayout count (preceding count segment)) = fanShare segment side := by
    have share := (fanSize_sideLayout several before side).2
    rwa [← fanShare_following even, follows] at share
  constructor
  · rw [quad_layout inside, quad_layout before, ahead, behind]
  · rw [quad_layout inside, ahead]
    cases side <;> simp only [fanShare] <;> omega
  · intro other otherInside notAhead notBehind
    rw [quad_layout otherInside, fanSize_eq_zero_iff]
    intro triangle listed corner
    obtain ⟨otherSide, here | next⟩ := corner_of_quad listed corner
    · exact notAhead ((ringNumber_eq_iff inside otherInside _ _).mp here).2.symm
    · have turned : (other + 1) % count < count := Nat.mod_lt _ (by omega)
      have same := ((ringNumber_eq_iff inside turned _ _).mp next).2
      exact notBehind ((preceding_eq_iff inside otherInside).mpr same.symm).symm
  · rw [caps_layout, fanSize_eq_zero_iff]
    intro triangle listed
    simp only [List.mem_append, List.mem_map, List.mem_range] at listed
    obtain ⟨other, otherInside, rfl⟩ | ⟨other, otherInside, rfl⟩ := listed
    · exact ringNumber_not_mem_capLayout otherInside side .bottom segment
    · exact ringNumber_not_mem_capLayout otherInside side .top segment

end Corners

section Mesh

variable {α : Type} [Trigonometric α] (radius halfLength : α)

/-- As long as its vertices can be numbered in words, a cylinder has balanced fans around all
vertices of its side, whatever number of segments is asked for: a vertex on a ring is a corner
of one triangle of either quad beside it, or of two of either. -/
theorem side_vertices_have_balanced_fans {requested : UInt32}
    (room : 4 * evenCount requested.toNat + 2 ≤ UInt32.size) :
    ∃ indices, (mesh radius halfLength requested).indices? = some indices ∧
      (Triangle.cut indices.vertices).length = 4 * evenCount requested.toNat ∧
      ∀ side, ∀ segment < evenCount requested.toNat,
        (mesh radius halfLength requested).positions[
            ringNumber (evenCount requested.toNat) side segment]? =
          (ringPositions radius halfLength (segmentCount requested) side)[segment]? ∧
        BalancedFan (Triangle.cut indices.vertices) (evenCount requested.toNat) segment
          (ringNumber (evenCount requested.toNat) side segment) := by
  have several : 2 ≤ evenCount requested.toNat := by
    rw [evenCount]
    omega
  have even : evenCount requested.toNat % 2 = 0 := by
    rw [evenCount]
    omega
  have small : evenCount requested.toNat < UInt32.size := by omega
  have used := (exact_segmentCount small).view_eq
  rw [← used] at room several even ⊢
  have cut := IndexBuffer.cut_vertices_of_layout (exact_triangles room).view_eq
  refine ⟨.uint32 (Triangle.flatten (triangles (segmentCount requested))), rfl, ?_, ?_⟩
  · rw [cut, length_layout]
  · intro side segment inside
    constructor
    · simp only [mesh, List.getElem?_toArray]
      exact position_on_ring radius halfLength inside side
    · rw [cut]
      exact layout_balancedFan several even inside side

/-- Five segments are raised to six. Around the first vertex of the bottom ring two triangles
come from the first quad and two from the last one. -/
theorem small_cylinder_has_balanced_fans :
    4 * evenCount (5 : UInt32).toNat + 2 ≤ UInt32.size ∧
    ∃ indices, (mesh (1 : Float32) 1 5).indices? = some indices ∧
      BalancedFan (Triangle.cut indices.vertices) 6 0 14 ∧ preceding 6 0 = 5 := by
  have room : 4 * evenCount (5 : UInt32).toNat + 2 ≤ UInt32.size := by decide
  obtain ⟨indices, stored, _, fans⟩ := side_vertices_have_balanced_fans (1 : Float32) 1 room
  exact ⟨room, indices, stored, (fans .bottom 0 (by decide)).2, rfl⟩

end Mesh

end Shape.Cylinder

end RenderAssets
