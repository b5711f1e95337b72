import RenderAssets.Proofs.Shape.CylinderLayout
import RenderAssets.Proofs.Shape.OrientedSurfaces

/-!
# The cylinder is closed

Caps and side share no vertex, so that their normals can differ. Rim and ring of an end
have the same positions, though: with the two identified, the triangles of a cylinder are
a surface without a border, and all of them are wound alike.

Sides of triangles belong to segments. The sides over a segment are its piece of either
rim and the diagonal of its quad, and both triangles of each of them are over the segment.
The sides at the start of a segment are two spokes and an edge up the side: one of their
triangles is over the segment and the other one over the segment before.
-/

namespace RenderAssets.Shape.Cylinder

open Triangle
open scoped List

/-- Where the vertices of a cylinder stand, with the rim of each cap and the ring of the side
at that end identified. -/
inductive Place where
  | center (side : End)
  | ring (side : End) (segment : Nat)
  deriving DecidableEq, Repr

/-- The place of a vertex. -/
def place (count vertex : Nat) : Place :=
  if vertex = 0 then .center .bottom
  else if vertex < count + 1 then .ring .bottom (vertex - 1)
  else if vertex = count + 1 then .center .top
  else if vertex < 2 * count + 2 then .ring .top (vertex - (count + 2))
  else if vertex < 3 * count + 2 then .ring .bottom (vertex - (2 * count + 2))
  else .ring .top (vertex - (3 * count + 2))

/-- A vertex on a rim and one on a ring that are identified. -/
def Identified (count vertex other : Nat) : Prop :=
  ∃ side, ∃ segment < count,
    vertex = rimNumber count side segment ∧ other = ringNumber count side segment

section Places

variable {count segment : Nat}

/-- The centre of a cap stands alone. -/
theorem place_center (count : Nat) (side : End) :
    place count (centerNumber count side) = .center side := by
  cases side <;> simp [place, centerNumber]

/-- The vertices on a rim stand around the end of the cap. -/
theorem place_rim (inside : segment < count) (side : End) :
    place count (rimNumber count side segment) = .ring side segment := by
  cases side with
  | bottom =>
    have start : rimNumber count .bottom segment = segment + 1 := by
      simp only [rimNumber, centerNumber]
      omega
    rw [start, place, if_neg (by omega), if_pos (by omega), Nat.add_sub_cancel]
  | top =>
    have start : rimNumber count .top segment = segment + (count + 2) := by
      simp only [rimNumber, centerNumber]
      omega
    rw [start, place, if_neg (by omega), if_neg (by omega), if_neg (by omega), if_pos (by omega),
      Nat.add_sub_cancel]

/-- So do the vertices on the ring of the side. -/
theorem place_ring (inside : segment < count) (side : End) :
    place count (ringNumber count side segment) = .ring side segment := by
  cases side with
  | bottom =>
    have start : ringNumber count .bottom segment = segment + (2 * count + 2) := by
      simp only [ringNumber]
      omega
    rw [start, place, if_neg (by omega), if_neg (by omega), if_neg (by omega), if_neg (by omega),
      if_pos (by omega), Nat.add_sub_cancel]
  | top =>
    have start : ringNumber count .top segment = segment + (3 * count + 2) := by
      simp only [ringNumber]
      omega
    rw [start, place, if_neg (by omega), if_neg (by omega), if_neg (by omega), if_neg (by omega),
      if_neg (by omega), Nat.add_sub_cancel]

/-- Vertices have the same place if they are one, or are identified, and not otherwise. -/
theorem place_eq_iff {vertex other : Nat} (inside : vertex < 4 * count + 2)
    (otherInside : other < 4 * count + 2) :
    place count vertex = place count other ↔
      vertex = other ∨ Identified count vertex other ∨ Identified count other vertex := by
  constructor
  · intro same
    obtain ⟨side, rfl | ⟨segment, bound, rfl | rfl⟩⟩ := vertex_cases inside <;>
      obtain ⟨otherSide, rfl | ⟨otherSegment, otherBound, rfl | rfl⟩⟩ := vertex_cases otherInside
    all_goals
      simp (disch := assumption) only [place_center, place_rim, place_ring, Place.center.injEq,
        Place.ring.injEq, reduceCtorEq] at same
    · exact .inl (same ▸ rfl)
    · exact .inl (same.1 ▸ same.2 ▸ rfl)
    · exact .inr (.inl ⟨side, segment, bound, rfl, same.1 ▸ same.2 ▸ rfl⟩)
    · exact .inr (.inr ⟨side, segment, bound, same.1 ▸ same.2 ▸ rfl, rfl⟩)
    · exact .inl (same.1 ▸ same.2 ▸ rfl)
  · rintro (rfl | ⟨side, segment, bound, rfl, rfl⟩ | ⟨side, segment, bound, rfl, rfl⟩)
    · rfl
    · rw [place_rim bound, place_ring bound]
    · rw [place_rim bound, place_ring bound]

end Places

section Sides

variable (count segment : Nat)

/-- The sides over a segment: its piece of either rim, and the diagonal of its quad. -/
def segmentSides : List (Place × Place) :=
  let next := (segment + 1) % count
  [(.ring .bottom segment, .ring .bottom next), (.ring .top next, .ring .top segment),
    if segment % 2 = 0 then (.ring .top next, .ring .bottom segment)
    else (.ring .top segment, .ring .bottom next)]

/-- The sides at the start of a segment: a spoke of either cap, and the edge between. -/
def meridianSides : List (Place × Place) :=
  [(.ring .bottom segment, .center .bottom), (.center .top, .ring .top segment),
    (.ring .top segment, .ring .bottom segment)]

/-- The segment that a side belongs to. A piece of a rim and a diagonal belong to the first of
the two segments at whose starts they end. -/
def owner : Place × Place → Nat
  | (.ring _ segment, .ring _ other) => if other = (segment + 1) % count then segment else other
  | (.ring _ segment, .center _) => segment
  | (.center _, .ring _ segment) => segment
  | (.center _, .center _) => 0

/-- The directed edges over a segment, cap by cap and then around the side. -/
def segmentEdges : List (Place × Place) :=
  ((capLayout count .bottom segment).map (place count)).edges ++
    ((capLayout count .top segment).map (place count)).edges ++
    ((sideLayout count segment).map (Triangle.map (place count))).flatMap edges

end Sides

section Around

variable {count segment : Nat}

/-- The triangles over a segment run along its sides both ways, along those at its end
forwards, and along those at its start backwards. -/
theorem segmentEdges_perm (inside : segment < count) :
    (segmentEdges count segment).Perm
      (along (segmentSides count segment ++ meridianSides ((segment + 1) % count))
        (segmentSides count segment ++ meridianSides segment)) := by
  have next : (segment + 1) % count < count := Nat.mod_lt _ (by omega)
  apply List.perm_iff_count.mpr
  intro edge
  by_cases even : segment % 2 = 0
  all_goals
    simp only [segmentEdges, capLayout, sideLayout, edges, Triangle.map, place_center,
      place_rim inside, place_rim next, place_ring inside, place_ring next, along, segmentSides,
      meridianSides, even, ↓reduceIte, List.map_cons, List.map_nil, List.flatMap_cons,
      List.flatMap_nil, List.cons_append, List.nil_append, List.append_nil, List.count_cons,
      List.count_nil, Prod.swap_prod_mk]
    ac_rfl

/-- The edges of a cylinder are those over its segments. -/
theorem layout_edges_perm (count : Nat) :
    (((layout count).map (Triangle.map (place count))).flatMap edges).Perm
      ((List.range count).flatMap (segmentEdges count)) := by
  have parts : ((layout count).map (Triangle.map (place count))).flatMap edges =
      (List.range count).flatMap
          (fun segment => ((capLayout count .bottom segment).map (place count)).edges) ++
        (List.range count).flatMap
          (fun segment => ((capLayout count .top segment).map (place count)).edges) ++
        (List.range count).flatMap (fun segment =>
          ((sideLayout count segment).map (Triangle.map (place count))).flatMap edges) := by
    simp only [layout, List.map_append, List.map_map, List.map_flatMap, List.flatMap_append,
      List.flatMap_map, List.flatMap_assoc, Function.comp_apply]
  rw [parts]
  exact ((List.flatMap_append_perm _ _ _).append_right _).trans (List.flatMap_append_perm _ _ _)

/-- The edges of a cylinder are the sides over its segments and those at their starts, both
ways. What a segment leaves to the one after it is run along there the other way. -/
theorem layout_sides_perm (count : Nat) :
    (((layout count).map (Triangle.map (place count))).flatMap edges).Perm
      (bothWays ((List.range count).flatMap fun segment =>
        segmentSides count segment ++ meridianSides segment)) := by
  have turned : ((List.range count).flatMap fun segment =>
      meridianSides ((segment + 1) % count)).Perm ((List.range count).flatMap meridianSides) := by
    rw [← List.flatMap_map (fun segment => (segment + 1) % count) meridianSides]
    exact (following_perm count).flatMap_right _
  have onward : ((List.range count).flatMap fun segment =>
      segmentSides count segment ++ meridianSides ((segment + 1) % count)).Perm
      ((List.range count).flatMap fun segment =>
        segmentSides count segment ++ meridianSides segment) :=
    ((List.flatMap_append_perm _ _ _).symm.trans (turned.append_left _)).trans
      (List.flatMap_append_perm _ _ _)
  calc
    _ ~ (List.range count).flatMap (segmentEdges count) := layout_edges_perm count
    _ ~ (List.range count).flatMap fun segment =>
        along (segmentSides count segment ++ meridianSides ((segment + 1) % count))
          (segmentSides count segment ++ meridianSides segment) :=
      List.Perm.flatMap_left _ fun segment listed => segmentEdges_perm (List.mem_range.mp listed)
    _ ~ along _ _ := (along_flatMap_perm _ _ _).symm
    _ ~ _ := along_perm onward (.refl _)

end Around

section Once

variable {count segment : Nat}

/-- The segment that a side belongs to can be told from it, whichever way it is taken. -/
theorem owner_of_mem (several : 3 ≤ count) (inside : segment < count) {edge : Place × Place}
    (listed : edge ∈ bothWays (segmentSides count segment ++ meridianSides segment)) :
    owner count edge = segment := by
  obtain ⟨apart, apartAfter⟩ := following_apart several inside
  simp only [bothWays, segmentSides, meridianSides, List.cons_append, List.nil_append,
    List.map_cons, List.map_nil, List.mem_cons, List.not_mem_nil, or_false, Prod.swap_prod_mk]
    at listed
  by_cases even : segment % 2 = 0
  all_goals
    simp only [even, ↓reduceIte, Prod.swap_prod_mk] at listed
    rcases listed with rfl | rfl | rfl | rfl | rfl | rfl | rfl | rfl | rfl | rfl | rfl | rfl
    all_goals simp only [owner, ↓reduceIte, apart.symm, apartAfter.symm]

/-- The sides that belong to a segment are different, and none is the reverse of another. -/
theorem nodup_sides (several : 3 ≤ count) (inside : segment < count) :
    (bothWays (segmentSides count segment ++ meridianSides segment)).Nodup := by
  obtain ⟨apart, _⟩ := following_apart several inside
  by_cases even : segment % 2 = 0
  all_goals
    simp [bothWays, segmentSides, meridianSides, even, apart, apart.symm]

/-- A cylinder with its rims and rings identified is closed. -/
theorem layout_closed (several : 3 ≤ count) :
    Closed ((layout count).map (Triangle.map (place count))) := by
  apply closed_of_sides (layout_sides_perm count)
  rw [(bothWays_flatMap_perm _ _).nodup_iff]
  apply nodup_flatMap_of_owner (owner count) List.nodup_range
  · exact fun segment listed => nodup_sides several (List.mem_range.mp listed)
  · exact fun segment listed edge side => owner_of_mem several (List.mem_range.mp listed) side

end Once

section Mesh

variable {α : Type} [Trigonometric α] (radius halfLength : α)

/-- A ring has a position for every segment. -/
theorem length_ringPositions (segments : UInt32) (side : End) :
    (ringPositions radius halfLength segments side).length = segments.toNat := by
  rw [ringPositions, List.length_map, length_directions]

/-- The vertices on the rim of a cap have the positions of the ring at that end. -/
theorem position_on_rim {segments : UInt32} {segment : Nat} (inside : segment < segments.toNat)
    (side : End) :
    (positions radius halfLength segments)[rimNumber segments.toNat side segment]? =
      (ringPositions radius halfLength segments side)[segment]? := by
  have ring := length_ringPositions radius halfLength segments
  cases side with
  | bottom =>
    have start : rimNumber segments.toNat .bottom segment = segment + 1 := by
      simp only [rimNumber, centerNumber]
      omega
    simp only [start, positions, capPositions, List.append_assoc, List.cons_append,
      List.getElem?_cons_succ]
    rw [List.getElem?_append_left (by rw [ring]; omega)]
  | top =>
    have start : rimNumber segments.toNat .top segment = segments.toNat + (segment + 1) + 1 := by
      simp only [rimNumber, centerNumber]
      omega
    simp only [start, positions, capPositions, List.append_assoc, List.cons_append,
      List.getElem?_cons_succ]
    rw [List.getElem?_append_right (by rw [ring]; omega), ring, Nat.add_sub_cancel_left,
      List.getElem?_cons_succ, List.getElem?_append_left (by rw [ring]; omega)]

/-- So do the vertices on the ring of the side. -/
theorem position_on_ring {segments : UInt32} {segment : Nat} (inside : segment < segments.toNat)
    (side : End) :
    (positions radius halfLength segments)[ringNumber segments.toNat side segment]? =
      (ringPositions radius halfLength segments side)[segment]? := by
  have ring := length_ringPositions radius halfLength segments
  have caps : (capPositions radius halfLength segments .bottom ++
      capPositions radius halfLength segments .top).length =
        (segments.toNat + 1) + (segments.toNat + 1) := by
    simp only [capPositions, List.length_append, List.length_cons, ring]
  cases side with
  | bottom =>
    rw [ringNumber, positions, List.append_assoc, List.getElem?_append_right (by rw [caps]; omega),
      caps, Nat.add_sub_cancel_left, List.getElem?_append_left (by rw [ring]; omega)]
  | top =>
    rw [ringNumber, positions, List.append_assoc, List.getElem?_append_right (by rw [caps]; omega),
      caps, Nat.add_assoc, Nat.add_sub_cancel_left,
      List.getElem?_append_right (by rw [ring]; omega), ring, Nat.add_sub_cancel_left]

/-- A vertex on a rim and one on a ring that are identified have one position. -/
theorem position_of_identified {segments : UInt32} {vertex other : Nat}
    (identified : Identified segments.toNat vertex other) :
    ∃ position, (positions radius halfLength segments)[vertex]? = some position ∧
      (positions radius halfLength segments)[other]? = some position := by
  obtain ⟨side, segment, inside, rfl, rfl⟩ := identified
  have there : segment < (ringPositions radius halfLength segments side).length := by
    rwa [length_ringPositions]
  rw [position_on_rim radius halfLength inside, position_on_ring radius halfLength inside]
  exact ⟨_, List.getElem?_eq_getElem there, List.getElem?_eq_getElem there⟩

/-- As long as its vertices can be numbered in words, a cylinder is a closed surface once the
rims of its caps are identified with the rings of its side: every directed edge of its
triangles occurs once, and its reverse occurs once. Only vertices of the same position are
identified, and each only with the other one on the same segment and at the same end. -/
theorem identified_cylinder_is_closed {requested : UInt32}
    (room : 4 * evenCount requested.toNat + 2 ≤ UInt32.size) :
    ∃ indices, (mesh radius halfLength requested).indices? = some indices ∧
      (Triangle.cut indices.vertices).length = 4 * evenCount requested.toNat ∧
      Closed ((Triangle.cut indices.vertices).map
        (Triangle.map (place (evenCount requested.toNat)))) ∧
      (∀ vertex < 4 * evenCount requested.toNat + 2,
        ∀ other < 4 * evenCount requested.toNat + 2,
          place (evenCount requested.toNat) vertex = place (evenCount requested.toNat) other ↔
            vertex = other ∨ Identified (evenCount requested.toNat) vertex other ∨
              Identified (evenCount requested.toNat) other vertex) ∧
      ∀ vertex other, Identified (evenCount requested.toNat) vertex other →
        ∃ position, (mesh radius halfLength requested).positions[vertex]? = some position ∧
          (mesh radius halfLength requested).positions[other]? = some position := by
  have several : 3 ≤ evenCount requested.toNat := by
    rw [evenCount]
    omega
  have small : evenCount requested.toNat < UInt32.size := by omega
  have used := (exact_segmentCount small).view_eq
  rw [← used] at room several ⊢
  have numbers := (exact_triangles room).view_eq
  have cut : Triangle.cut (IndexBuffer.uint32 (Triangle.flatten
      (triangles (segmentCount requested)))).vertices = layout (segmentCount requested).toNat := by
    rw [IndexBuffer.vertices_of_triangles, numbers, Triangle.cut_flatten]
  refine ⟨.uint32 (Triangle.flatten (triangles (segmentCount requested))), rfl, ?_, ?_, ?_, ?_⟩
  · rw [cut, length_layout]
  · rw [cut]
    exact layout_closed several
  · exact fun vertex inside other otherInside => place_eq_iff inside otherInside
  · intro vertex other identified
    simp only [mesh, List.getElem?_toArray]
    exact position_of_identified radius halfLength identified

/-- A cylinder of five segments asked for has six, and twenty-four triangles. The first vertex
on its bottom rim has the position of the first one on the bottom ring. -/
theorem small_cylinder_is_closed :
    4 * evenCount (5 : UInt32).toNat + 2 ≤ UInt32.size ∧
    ∃ indices, (mesh (1 : Float32) 1 5).indices? = some indices ∧
      (Triangle.cut indices.vertices).length = 24 ∧
      Closed ((Triangle.cut indices.vertices).map (Triangle.map (place 6))) ∧
      place 6 1 = place 6 14 ∧
      ∃ position, (mesh (1 : Float32) 1 5).positions[1]? = some position ∧
        (mesh (1 : Float32) 1 5).positions[14]? = some position := by
  have room : 4 * evenCount (5 : UInt32).toNat + 2 ≤ UInt32.size := by decide
  obtain ⟨indices, stored, triangles, closed, identified, alike⟩ :=
    identified_cylinder_is_closed (1 : Float32) 1 room
  have first : Identified 6 1 14 := ⟨.bottom, 0, by decide, rfl, rfl⟩
  exact ⟨room, indices, stored, triangles, closed,
    (identified 1 (by decide) 14 (by decide)).mpr (.inr (.inl first)), alike 1 14 first⟩

end Mesh

end RenderAssets.Shape.Cylinder
