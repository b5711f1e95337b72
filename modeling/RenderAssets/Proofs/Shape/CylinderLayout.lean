import RenderAssets.Shape.Cylinder
import RenderAssets.Proofs.Shape.CyclicSegments
import RenderAssets.Proofs.Shape.ExactNumbers
import RenderAssets.Proofs.Shape.SoundLayouts

/-!
# The vertices of the cylinder

The layout of a cylinder is its list of triangles over numbers that are not bounded. With
as many segments as leave room for all vertices in words, the triangles that are computed
stand for the layout, and no sum on the way wraps.

A cylinder of some segments has two centres, two rims and two rings: four vertices for
every segment and two more. Its layout covers them. The segment that follows another one
is the next one, or the first after the last; that is all that is used of it.
-/

namespace RenderAssets.Shape.Cylinder

/-- The number asked for, raised to four and then to the next even number. -/
def evenCount (requested : Nat) : Nat := max requested 4 + max requested 4 % 2

section Layout

/-- The centre of a cap. -/
def centerNumber (count : Nat) : End → Nat
  | .bottom => 0
  | .top => count + 1

/-- A vertex on the rim of a cap. -/
def rimNumber (count : Nat) (side : End) (segment : Nat) : Nat :=
  centerNumber count side + 1 + segment

/-- A vertex on a ring of the side. -/
def ringNumber (count : Nat) : End → Nat → Nat
  | .bottom, segment => (count + 1) + (count + 1) + segment
  | .top, segment => (count + 1) + (count + 1) + count + segment

/-- The triangle of a cap over one segment. -/
def capLayout (count : Nat) (side : End) (segment : Nat) : Triangle Nat :=
  let current := rimNumber count side segment
  let next := rimNumber count side ((segment + 1) % count)
  match side with
  | .bottom => ⟨centerNumber count side, current, next⟩
  | .top => ⟨centerNumber count side, next, current⟩

/-- The two triangles of the side over one segment. -/
def sideLayout (count segment : Nat) : List (Triangle Nat) :=
  let bottom := ringNumber count .bottom segment
  let bottomNext := ringNumber count .bottom ((segment + 1) % count)
  let top := ringNumber count .top segment
  let topNext := ringNumber count .top ((segment + 1) % count)
  if segment % 2 = 0 then
    [⟨bottom, top, topNext⟩, ⟨bottom, topNext, bottomNext⟩]
  else
    [⟨bottom, top, bottomNext⟩, ⟨top, topNext, bottomNext⟩]

/-- The bottom cap, the top cap and the side. -/
def layout (count : Nat) : List (Triangle Nat) :=
  (List.range count).map (capLayout count .bottom) ++
    (List.range count).map (capLayout count .top) ++
    (List.range count).flatMap (sideLayout count)

end Layout

section Checked

variable (segments : UInt32)

/-- The segment after a given one. -/
def following? (segment : UInt32) : Option UInt32 :=
  remainder? (sum? (some segment) (some 1)) (some segments)

/-- The centre of a cap. -/
def capCenter? : End → Option UInt32
  | .bottom => some 0
  | .top => sum? (some segments) (some 1)

/-- A vertex on the rim of a cap. -/
def capRim? (side : End) (segment : Option UInt32) : Option UInt32 :=
  sum? (sum? (capCenter? segments side) (some 1)) segment

/-- The first vertex of the side, behind the two caps. -/
def sideStart? : Option UInt32 :=
  sum? (sum? (some segments) (some 1)) (sum? (some segments) (some 1))

/-- A vertex on a ring of the side. -/
def sideRing? : End → Option UInt32 → Option UInt32
  | .bottom, segment => sum? (sideStart? segments) segment
  | .top, segment => sum? (sum? (sideStart? segments) (some segments)) segment

/-- The triangle of a cap over one segment. -/
def capTriangle? (side : End) (segment : UInt32) : Option (Triangle UInt32) :=
  let current := capRim? segments side (some segment)
  let next := capRim? segments side (following? segments segment)
  match side with
  | .bottom => triangle? (capCenter? segments side) current next
  | .top => triangle? (capCenter? segments side) next current

/-- The two triangles of the side over one segment. -/
def sideTriangles? (segment : UInt32) : Option (List (Triangle UInt32)) :=
  let bottom := sideRing? segments .bottom (some segment)
  let bottomNext := sideRing? segments .bottom (following? segments segment)
  let top := sideRing? segments .top (some segment)
  let topNext := sideRing? segments .top (following? segments segment)
  if segment % 2 = 0 then
    pair? (triangle? bottom top topNext) (triangle? bottom topNext bottomNext)
  else
    pair? (triangle? bottom top bottomNext) (triangle? top topNext bottomNext)

/-- The bottom cap, the top cap and the side. -/
def triangles? : Option (List (Triangle UInt32)) :=
  joined? (joined? ((steps segments.toNat).mapM (capTriangle? segments .bottom))
      ((steps segments.toNat).mapM (capTriangle? segments .top)))
    (((steps segments.toNat).mapM (sideTriangles? segments)).map List.flatten)

end Checked

/-- The number of segments used. -/
def segmentCount? (requested : UInt32) : Option UInt32 :=
  sum? (some (max requested 4)) (remainder? (some (max requested 4)) (some 2))

section Exact

/-- The number of segments used is the one meant, if that is a word. -/
theorem exact_segmentCount {requested : UInt32}
    (small : evenCount requested.toNat < UInt32.size) :
    Exact UInt32.toNat (segmentCount? requested) (segmentCount requested)
      (evenCount requested.toNat) := by
  have raised : (max requested 4).toNat = max requested.toNat 4 := by
    change (if requested ≤ 4 then 4 else requested).toNat = _
    have four : (4 : UInt32).toNat = 4 := rfl
    split
    next few =>
      rw [UInt32.le_iff_toNat_le, four] at few
      omega
    next many =>
      rw [UInt32.le_iff_toNat_le, four] at many
      omega
  have atLeast : Exact UInt32.toNat (some (max requested 4)) (max requested 4)
      (max requested.toNat 4) := ⟨rfl, raised⟩
  exact atLeast.sum (atLeast.remainder ⟨rfl, rfl⟩) small

variable {segments : UInt32}

/-- The segment after one that there is, is exact. -/
theorem exact_following {segment : UInt32} (inside : segment.toNat < segments.toNat) :
    Exact UInt32.toNat (following? segments segment) (following segments segment)
      ((segment.toNat + 1) % segments.toNat) := by
  have small := segments.toNat_lt_size
  exact ((Exact.given segment).sum .one (by omega)).remainder (.given segments)

variable (room : 4 * segments.toNat + 2 ≤ UInt32.size)
include room

/-- The centre of a cap is exact. -/
theorem exact_capCenter (side : End) :
    Exact UInt32.toNat (capCenter? segments side) (capCenter segments side)
      (centerNumber segments.toNat side) := by
  cases side with
  | bottom => exact .given 0
  | top => exact (Exact.given segments).sum .one (by omega)

section Vertex

variable {segment : UInt32} {segment? : Option UInt32} {number : Nat}
  (given : Exact UInt32.toNat segment? segment number) (inside : number < segments.toNat)
include given inside

/-- A vertex on the rim of a cap is exact. -/
theorem exact_capRim (side : End) :
    Exact UInt32.toNat (capRim? segments side segment?) (capRim segments side segment)
      (rimNumber segments.toNat side number) := by
  have center := exact_capCenter room side
  have below : centerNumber segments.toNat side ≤ segments.toNat + 1 := by
    cases side <;> simp [centerNumber]
  exact (center.sum .one (by omega)).sum given (by omega)

/-- A vertex on a ring of the side is exact. -/
theorem exact_sideRing (side : End) :
    Exact UInt32.toNat (sideRing? segments side segment?) (sideRing segments side segment)
      (ringNumber segments.toNat side number) := by
  have oneMore : Exact UInt32.toNat (sum? (some segments) (some 1)) (segments + 1)
      (segments.toNat + 1) := (Exact.given segments).sum .one (by omega)
  have start : Exact UInt32.toNat (sideStart? segments) ((segments + 1) + (segments + 1))
      ((segments.toNat + 1) + (segments.toNat + 1)) := oneMore.sum oneMore (by omega)
  cases side with
  | bottom => exact start.sum given (by omega)
  | top => exact (start.sum (.given segments) (by omega)).sum given (by omega)

end Vertex

section Segment

variable {segment : UInt32} (inside : segment.toNat < segments.toNat)
include inside

/-- The triangle of a cap over a segment is exact. -/
theorem exact_capTriangle (side : End) :
    Exact (Triangle.map UInt32.toNat) (capTriangle? segments side segment)
      (capTriangle segments side segment) (capLayout segments.toNat side segment.toNat) := by
  have positive : 0 < segments.toNat := Nat.zero_lt_of_lt inside
  have center := exact_capCenter room side
  have current := exact_capRim room (.given segment) inside side
  have next := exact_capRim room (exact_following inside) (Nat.mod_lt _ positive) side
  cases side with
  | bottom => exact center.triangle current next
  | top => exact center.triangle next current

/-- The two triangles of the side over a segment are exact. -/
theorem exact_sideTriangles :
    Exact (List.map (Triangle.map UInt32.toNat)) (sideTriangles? segments segment)
      (sideTriangles segments segment) (sideLayout segments.toNat segment.toNat) := by
  have positive : 0 < segments.toNat := Nat.zero_lt_of_lt inside
  have here := exact_sideRing room (.given segment) inside
  have next := exact_sideRing room (exact_following inside) (Nat.mod_lt _ positive)
  have parity : segment % 2 = 0 ↔ segment.toNat % 2 = 0 := by
    rw [← UInt32.toNat_inj, UInt32.toNat_mod]
    rfl
  simp only [sideTriangles?, sideTriangles, sideLayout, parity]
  split
  · exact ((here .bottom).triangle (here .top) (next .top)).pair
      ((here .bottom).triangle (next .top) (next .bottom))
  · exact ((here .bottom).triangle (here .top) (next .bottom)).pair
      ((here .top).triangle (next .top) (next .bottom))

end Segment

/-- The triangles of the cylinder are computed without wrapping, and stand for its layout. -/
theorem exact_triangles :
    Exact (List.map (Triangle.map UInt32.toNat)) (triangles? segments) (triangles segments)
      (layout segments.toNat) := by
  have small : segments.toNat ≤ UInt32.size := by omega
  have cap (side : End) : Exact (List.map (Triangle.map UInt32.toNat))
      ((steps segments.toNat).mapM (capTriangle? segments side))
      ((steps segments.toNat).map (capTriangle segments side))
      ((List.range segments.toNat).map (capLayout segments.toNat side)) :=
    .overSteps small fun _ inside => exact_capTriangle room inside side
  exact ((cap .bottom).joined (cap .top)).joined
    (.joinedOverSteps small fun _ inside => exact_sideTriangles room inside)

end Exact

section Cover

/-- A triangle of the layout is one of a cap, or one of the side. -/
theorem mem_layout_iff {count : Nat} {triangle : Triangle Nat} :
    triangle ∈ layout count ↔ ∃ segment < count,
      (∃ side, triangle = capLayout count side segment) ∨ triangle ∈ sideLayout count segment := by
  simp only [layout, List.mem_append, List.mem_map, List.mem_flatMap, List.mem_range]
  constructor
  · rintro ((⟨segment, inside, rfl⟩ | ⟨segment, inside, rfl⟩) | ⟨segment, inside, listed⟩)
    · exact ⟨segment, inside, .inl ⟨.bottom, rfl⟩⟩
    · exact ⟨segment, inside, .inl ⟨.top, rfl⟩⟩
    · exact ⟨segment, inside, .inr listed⟩
  · rintro ⟨segment, inside, ⟨side, rfl⟩ | listed⟩
    · cases side with
      | bottom => exact .inl (.inl ⟨segment, inside, rfl⟩)
      | top => exact .inl (.inr ⟨segment, inside, rfl⟩)
    · exact .inr ⟨segment, inside, listed⟩

/-- There are two triangles over every segment of the side. -/
theorem length_sideLayout (count segment : Nat) : (sideLayout count segment).length = 2 := by
  rw [sideLayout]
  split <;> rfl

/-- There are four triangles for every segment. -/
theorem length_layout (count : Nat) : (layout count).length = 4 * count := by
  simp only [layout, List.length_append, List.length_map, List.length_range,
    List.length_flatMap, length_sideLayout, List.map_const', List.sum_replicate_nat]
  omega

section Proper

variable {count segment : Nat} (several : 2 ≤ count) (inside : segment < count)
include several inside

/-- The triangle of a cap over a segment has three different corners that are there. -/
theorem capLayout_proper (side : End) :
    (∀ vertex ∈ (capLayout count side segment).corners, vertex < 4 * count + 2) ∧
      (capLayout count side segment).corners.Nodup := by
  have next := following_cases inside
  rw [Triangle.proper_iff]
  cases side <;> simp only [capLayout, rimNumber, centerNumber] <;> omega

/-- So do both triangles of the side, whichever way the quad is split. -/
theorem sideLayout_proper {triangle : Triangle Nat} (listed : triangle ∈ sideLayout count segment) :
    (∀ vertex ∈ triangle.corners, vertex < 4 * count + 2) ∧ triangle.corners.Nodup := by
  have next := following_cases inside
  rw [sideLayout] at listed
  rw [Triangle.proper_iff]
  split at listed
  all_goals
    simp only [List.mem_cons, List.not_mem_nil, or_false] at listed
    rcases listed with rfl | rfl <;> simp only [ringNumber] <;> omega

end Proper

/-- The centre of a cap, the vertices of its rim and those of its ring are corners over their
own segments. The first triangle of a quad names both of its vertices of the segment,
whichever way the quad is split. -/
theorem corner_over_segment (count segment : Nat) (side : End) :
    (centerNumber count side ∈ (capLayout count side segment).corners ∧
        rimNumber count side segment ∈ (capLayout count side segment).corners) ∧
      ∃ triangle ∈ sideLayout count segment, ringNumber count side segment ∈ triangle.corners := by
  constructor
  · cases side <;> simp [capLayout, Triangle.corners]
  · rw [sideLayout]
    split
    all_goals
      refine ⟨_, List.mem_cons_self, ?_⟩
      cases side <;> simp [Triangle.corners]

/-- Every vertex is a centre, on a rim, or on a ring. The parts stand in the order in which
they are numbered. -/
theorem vertex_cases {count vertex : Nat} (inside : vertex < 4 * count + 2) :
    ∃ side, vertex = centerNumber count side ∨
      ∃ segment < count, vertex = rimNumber count side segment ∨
        vertex = ringNumber count side segment := by
  have parts : vertex = 0 ∨ (1 ≤ vertex ∧ vertex < count + 1) ∨ vertex = count + 1 ∨
      (count + 2 ≤ vertex ∧ vertex < 2 * count + 2) ∨
      (2 * count + 2 ≤ vertex ∧ vertex < 3 * count + 2) ∨ 3 * count + 2 ≤ vertex := by omega
  simp only [centerNumber, rimNumber, ringNumber]
  rcases parts with center | rim | center | rim | ring | ring
  · exact ⟨.bottom, .inl center⟩
  · exact ⟨.bottom, .inr ⟨vertex - 1, by omega, .inl (by dsimp only; omega)⟩⟩
  · exact ⟨.top, .inl center⟩
  · exact ⟨.top, .inr ⟨vertex - (count + 2), by omega, .inl (by dsimp only; omega)⟩⟩
  · exact ⟨.bottom, .inr ⟨vertex - (2 * count + 2), by omega, .inr (by dsimp only; omega)⟩⟩
  · exact ⟨.top, .inr ⟨vertex - (3 * count + 2), by omega, .inr (by dsimp only; omega)⟩⟩

/-- The layout covers four vertices for every segment and the two centres. -/
theorem layout_cover {count : Nat} (several : 2 ≤ count) :
    Triangle.Cover (layout count) (4 * count + 2) := by
  apply Triangle.cover_of_proper
  · intro triangle listed
    obtain ⟨segment, inside, ⟨side, rfl⟩ | side⟩ := mem_layout_iff.mp listed
    · exact capLayout_proper several inside side
    · exact sideLayout_proper several inside side
  · intro vertex there
    obtain ⟨side, rfl | ⟨segment, inside, rfl | rfl⟩⟩ := vertex_cases there
    · have first : 0 < count := by omega
      exact ⟨_, mem_layout_iff.mpr ⟨0, first, .inl ⟨side, rfl⟩⟩,
        (corner_over_segment count 0 side).1.1⟩
    · exact ⟨_, mem_layout_iff.mpr ⟨segment, inside, .inl ⟨side, rfl⟩⟩,
        (corner_over_segment count segment side).1.2⟩
    · obtain ⟨triangle, listed, corner⟩ := (corner_over_segment count segment side).2
      exact ⟨triangle, mem_layout_iff.mpr ⟨segment, inside, .inr listed⟩, corner⟩

end Cover

section Mesh

variable {α : Type} [Trigonometric α] (radius halfLength : α)

/-- There is a direction for every segment. -/
theorem length_directions (segments : UInt32) :
    (directions segments : List (Vector3 α)).length = segments.toNat := by
  rw [directions, List.length_map, length_steps]

/-- There are four positions for every segment and the two centres. -/
theorem length_positions (segments : UInt32) :
    (positions radius halfLength segments).length = 4 * segments.toNat + 2 := by
  simp only [positions, capPositions, ringPositions, List.length_append, List.length_cons,
    List.length_map, length_directions]
  omega

/-- There is a normal for every position. -/
theorem length_normals (segments : UInt32) :
    (normals segments : List (Vector3 α)).length = 4 * segments.toNat + 2 := by
  simp only [normals, capNormals, List.length_append, List.length_replicate, length_directions]
  omega

/-- A cylinder whose vertices can be numbered in words is sound, and its triangles are those
that are computed without wrapping. -/
theorem mesh_indexSound {requested : UInt32}
    (room : 4 * evenCount requested.toNat + 2 ≤ UInt32.size) :
    ∃ triangles, (segmentCount? requested).bind triangles? = some triangles ∧
      (mesh radius halfLength requested).IndexSound (.uint32 (Triangle.flatten triangles))
        (4 * evenCount requested.toNat + 2) (12 * evenCount requested.toNat) := by
  have small : evenCount requested.toNat < UInt32.size := by omega
  obtain ⟨segments?, used⟩ := exact_segmentCount small
  have several : 2 ≤ evenCount requested.toNat := by
    rw [evenCount]
    omega
  rw [← used] at room several ⊢
  obtain ⟨triangles?, numbers⟩ := exact_triangles room
  have corners : 12 * (segmentCount requested).toNat =
      3 * (layout (segmentCount requested).toNat).length := by
    rw [length_layout]
    omega
  refine ⟨triangles (segmentCount requested), by rw [segments?, Option.bind_some, triangles?], ?_⟩
  rw [corners]
  exact TriangleMesh.indexSound_of_layout numbers (layout_cover several)
    (length_positions radius halfLength _) ⟨_, rfl, length_normals _⟩ rfl

end Mesh

end RenderAssets.Shape.Cylinder
