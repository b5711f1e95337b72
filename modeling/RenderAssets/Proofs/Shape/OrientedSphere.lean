import RenderAssets.Proofs.Shape.CyclicSegments
import RenderAssets.Proofs.Shape.OrientedSurfaces
import RenderAssets.Proofs.Shape.SphereLayout

/-!
# The sphere closes at the seam and opens at the poles

A row of the grid begins and ends at the seam. With the last vertex of every row identified
with the first one, the triangles of a sphere are all wound alike, and every edge of them is
run along both ways but for those around the poles: nothing runs back along the first row
and along the last one. The vertices of a pole's row are not identified with each other, so
each of these rows is a border.

Sides of triangles belong to places of the grid: the parallel from the place to the next one
in its row, and the meridian and the diagonal between the row and the one below. The cells
between two rows run along the meridians and the diagonals between them both ways, along the
parallels of the upper row forwards and along those of the lower row backwards. So the
parallels of a row are run along backwards from above and forwards from below, and only the
two rows at the poles lack one of these.
-/

namespace RenderAssets.Shape.Sphere

open Triangle
open scoped List

/-- Where the vertices of the grid stand, once the seam is closed. -/
structure Place where
  row : Nat
  column : Nat
  deriving DecidableEq, Repr

/-- The place of a vertex. The last vertex of a row has that of the first. -/
def place (segments vertex : Nat) : Place :=
  ⟨vertex / (segments + 1), vertex % (segments + 1) % segments⟩

/-- The edges around the poles: forwards along the first row, and backwards along the last. -/
def border (segments rings : Nat) : List (Place × Place) :=
  ((List.range segments).map fun column =>
    (place segments (vertexNumber segments 0 column),
      place segments (vertexNumber segments 0 (column + 1)))) ++
    (List.range segments).map fun column =>
      (place segments (vertexNumber segments rings (column + 1)),
        place segments (vertexNumber segments rings column))

section Places

variable {segments : Nat}

/-- A vertex stands in its row and column, but for those at the end of a row. -/
theorem place_vertexNumber {column : Nat} (inside : column ≤ segments) (row : Nat) :
    place segments (vertexNumber segments row column) = ⟨row, column % segments⟩ := by
  have width : column < segments + 1 := Nat.lt_succ_of_le inside
  rw [place, vertexNumber, Nat.mul_comm, Nat.mul_add_div (Nat.succ_pos segments),
    Nat.mul_add_mod, Nat.div_eq_of_lt width, Nat.mod_eq_of_lt width, Nat.add_zero]

/-- Two columns have a remainder in common if they are one, or the first and the last. -/
theorem column_eq_iff {column other : Nat} (inside : column ≤ segments)
    (otherInside : other ≤ segments) :
    column % segments = other % segments ↔
      column = other ∨ (column = 0 ∧ other = segments) ∨ (column = segments ∧ other = 0) := by
  rcases Nat.lt_or_eq_of_le inside with before | rfl <;>
    rcases Nat.lt_or_eq_of_le otherInside with otherBefore | rfl
  · rw [Nat.mod_eq_of_lt before, Nat.mod_eq_of_lt otherBefore]
    omega
  · rw [Nat.mod_eq_of_lt before, Nat.mod_self]
    omega
  · rw [Nat.mod_self, Nat.mod_eq_of_lt otherBefore]
    omega
  · simp

/-- Vertices have the same place if they stand in one row, and in one column or at the two
ends of the row, and not otherwise. -/
theorem place_eq_iff {column other : Nat} (inside : column ≤ segments)
    (otherInside : other ≤ segments) (row otherRow : Nat) :
    place segments (vertexNumber segments row column) =
        place segments (vertexNumber segments otherRow other) ↔
      row = otherRow ∧
        (column = other ∨ (column = 0 ∧ other = segments) ∨ (column = segments ∧ other = 0)) := by
  rw [place_vertexNumber inside, place_vertexNumber otherInside, Place.mk.injEq,
    column_eq_iff inside otherInside]

end Places

section Sides

variable (segments : Nat)

/-- From a place to the next one in its row. -/
def parallel (row column : Nat) : Place × Place := (⟨row, column⟩, ⟨row, (column + 1) % segments⟩)

/-- From the place below up to a place. -/
def meridian (row column : Nat) : Place × Place := (⟨row + 1, column⟩, ⟨row, column⟩)

/-- Across a cell, from its upper place at the far side to its lower one at the near side. -/
def diagonal (row column : Nat) : Place × Place :=
  (⟨row, (column + 1) % segments⟩, ⟨row + 1, column⟩)

/-- The parallels of a row. -/
def parallels (row : Nat) : List (Place × Place) :=
  (List.range segments).map (parallel segments row)

/-- The sides between a row and the one below. -/
def spans (row : Nat) : List (Place × Place) :=
  (List.range segments).map (diagonal segments row) ++ (List.range segments).map (meridian row)

/-- The row that a side belongs to, the upper one of its ends. -/
def ownerRow (side : Place × Place) : Nat := min side.1.row side.2.row

/-- The column that a side belongs to. A parallel belongs to the first of its two columns, and
every other side to that of its lower end. -/
def ownerColumn (side : Place × Place) : Nat :=
  if side.1.row = side.2.row then
    if side.2.column = (side.1.column + 1) % segments then side.1.column else side.2.column
  else if side.1.row < side.2.row then side.2.column else side.1.column

end Sides

section Around

variable {segments : Nat}

/-- Three sides for every part, kind by kind instead of part by part. -/
theorem flatMap_three_perm {β γ : Type} (parts : List β) (first second third : β → γ) :
    (parts.flatMap fun part => [first part, second part, third part]).Perm
      (parts.map first ++ parts.map second ++ parts.map third) := by
  have pairs := List.flatMap_append_perm parts (fun part => [first part]) fun part => [second part]
  have triples := List.flatMap_append_perm parts (fun part => [first part, second part])
    fun part => [third part]
  rw [List.map_eq_flatMap, List.map_eq_flatMap, List.map_eq_flatMap]
  exact triples.symm.trans (pairs.symm.append_right _)

/-- The places of the two triangles of a cell. -/
theorem cellLayout_places {column : Nat} (before : column < segments) (row : Nat) :
    (cellLayout segments row column).map (Triangle.map (place segments)) =
      [⟨⟨row, column⟩, ⟨row, (column + 1) % segments⟩, ⟨row + 1, column⟩⟩,
        ⟨⟨row, (column + 1) % segments⟩, ⟨row + 1, (column + 1) % segments⟩,
          ⟨row + 1, column⟩⟩] := by
  have beside : vertexNumber segments row column + 1 = vertexNumber segments row (column + 1) :=
    Nat.add_assoc ..
  have below : vertexNumber segments row column + segments + 1 =
      vertexNumber segments (row + 1) column := by
    rw [vertexNumber, vertexNumber, Nat.add_mul]
    omega
  have across : vertexNumber segments (row + 1) column + 1 =
      vertexNumber segments (row + 1) (column + 1) := Nat.add_assoc ..
  have near : column ≤ segments := Nat.le_of_lt before
  have far : column + 1 ≤ segments := before
  simp only [cellLayout, below, beside, across, List.map_cons, List.map_nil, Triangle.map,
    place_vertexNumber near, place_vertexNumber far, Nat.mod_eq_of_lt before]

/-- The triangles of a cell run along its diagonal both ways, along the sides at the place of
the cell forwards, and along those at its far side and below backwards. -/
theorem cell_edges_perm {column : Nat} (before : column < segments) (row : Nat) :
    (((cellLayout segments row column).map (Triangle.map (place segments))).flatMap edges).Perm
      (along [diagonal segments row column, meridian row column, parallel segments row column]
        [diagonal segments row column, meridian row ((column + 1) % segments),
          parallel segments (row + 1) column]) := by
  apply List.perm_iff_count.mpr
  intro edge
  simp only [cellLayout_places before, edges, along, diagonal, meridian, parallel, List.map_cons,
    List.map_nil, List.flatMap_cons, List.flatMap_nil, List.cons_append, List.nil_append,
    List.append_nil, List.count_cons, List.count_nil, Prod.swap_prod_mk]
  ac_rfl

/-- The cells between a row and the one below run along the sides between the rows both ways,
along the parallels of the row forwards, and along those of the row below backwards. -/
theorem row_edges_perm (segments row : Nat) :
    ((List.range segments).flatMap fun column =>
      ((cellLayout segments row column).map (Triangle.map (place segments))).flatMap edges).Perm
      (along (spans segments row ++ parallels segments row)
        (spans segments row ++ parallels segments (row + 1))) := by
  have onward : ((List.range segments).map fun column =>
      meridian row ((column + 1) % segments)).Perm ((List.range segments).map (meridian row)) := by
    have turned := (following_perm segments).map (meridian row)
    rwa [List.map_map] at turned
  calc
    _ ~ (List.range segments).flatMap fun column =>
        along [diagonal segments row column, meridian row column, parallel segments row column]
          [diagonal segments row column, meridian row ((column + 1) % segments),
            parallel segments (row + 1) column] :=
      List.Perm.flatMap_left _ fun column listed => cell_edges_perm (List.mem_range.mp listed) row
    _ ~ along _ _ := (along_flatMap_perm _ _ _).symm
    _ ~ _ := along_perm (flatMap_three_perm _ _ _ _)
      ((flatMap_three_perm _ _ _ _).trans ((onward.append_left _).append_right _))

/-- So do the cells of all rows. -/
theorem layout_edges_perm (segments rings : Nat) :
    (((layout segments rings).map (Triangle.map (place segments))).flatMap edges).Perm
      (along ((List.range rings).flatMap fun row => spans segments row ++ parallels segments row)
        ((List.range rings).flatMap fun row =>
          spans segments row ++ parallels segments (row + 1))) := by
  have rows : ((layout segments rings).map (Triangle.map (place segments))).flatMap edges =
      (List.range rings).flatMap fun row => (List.range segments).flatMap fun column =>
        ((cellLayout segments row column).map (Triangle.map (place segments))).flatMap edges := by
    simp only [layout, List.map_flatMap, List.flatMap_assoc]
  rw [rows]
  exact (List.Perm.flatMap_left _ fun row _ => row_edges_perm segments row).trans
    (along_flatMap_perm _ _ _).symm

/-- The border is made up of the parallels of the first row, and of those of the last one
taken backwards. -/
theorem border_eq (segments rings : Nat) :
    border segments rings = along (parallels segments 0) (parallels segments rings) := by
  have ends (row column : Nat) (listed : column ∈ List.range segments) :
      (place segments (vertexNumber segments row column),
        place segments (vertexNumber segments row (column + 1))) =
          parallel segments row column := by
    have before := List.mem_range.mp listed
    rw [place_vertexNumber (Nat.le_of_lt before), place_vertexNumber before,
      Nat.mod_eq_of_lt before, parallel]
  rw [border, along, parallels, parallels, List.map_map]
  congr 1
  · exact List.map_congr_left (ends 0)
  · exact List.map_congr_left fun column listed => congrArg Prod.swap (ends rings column listed)

/-- With the border taken the other way, the cells run along all sides both ways: those between
the rows, and the parallels of one row more. -/
theorem sewn_edges_perm (segments rings : Nat) :
    (((layout segments rings).map (Triangle.map (place segments))).flatMap edges ++
        (border segments rings).map Prod.swap).Perm
      (bothWays ((List.range rings).flatMap (spans segments) ++
        (List.range (rings + 1)).flatMap (parallels segments))) := by
  have turned : ((border segments rings).map Prod.swap).Perm
      (along (parallels segments rings) (parallels segments 0)) := by
    rw [border_eq, along, along, List.map_append, List.map_map, Prod.swap_swap_eq, List.map_id]
    exact List.perm_append_comm
  -- Those at the top of the rows leave out the last one.
  have fromAbove : ((List.range rings).flatMap (fun row =>
      spans segments row ++ parallels segments row) ++ parallels segments rings).Perm
      ((List.range rings).flatMap (spans segments) ++
        (List.range (rings + 1)).flatMap (parallels segments)) := by
    rw [List.range_succ, List.flatMap_append, List.flatMap_singleton, ← List.append_assoc]
    exact (List.flatMap_append_perm _ _ _).symm.append_right _
  -- The parallels at the bottom of the rows leave out the first row of all.
  have fromBelow : ((List.range rings).flatMap (fun row =>
      spans segments row ++ parallels segments (row + 1)) ++ parallels segments 0).Perm
      ((List.range rings).flatMap (spans segments) ++
        (List.range (rings + 1)).flatMap (parallels segments)) := by
    rw [List.range_succ_eq_map, List.flatMap_cons, List.flatMap_map]
    refine ((List.flatMap_append_perm _ _ _).symm.append_right _).trans ?_
    rw [List.append_assoc]
    exact List.perm_append_comm.append_left _
  calc
    _ ~ _ := (layout_edges_perm segments rings).append turned
    _ ~ _ := (along_append_perm _ _ _ _).symm
    _ ~ _ := along_perm fromAbove fromBelow

end Around

section Once

variable {segments : Nat}

/-- The place that a side belongs to can be told from it, whichever way it is taken. -/
theorem owner_of_mem (several : 3 ≤ segments) {row column : Nat} (before : column < segments)
    {edge : Place × Place} (listed : edge ∈ bothWays [diagonal segments row column,
      meridian row column, parallel segments row column]) :
    ownerRow edge = row ∧ ownerColumn segments edge = column := by
  obtain ⟨apart, apartAfter⟩ := following_apart several before
  simp only [bothWays, diagonal, meridian, parallel, List.map_cons, List.map_nil,
    List.cons_append, List.nil_append, List.mem_cons, List.not_mem_nil, or_false,
    Prod.swap_prod_mk] at listed
  rcases listed with rfl | rfl | rfl | rfl | rfl | rfl
  all_goals
    simp only [ownerRow, ownerColumn]
    split_ifs <;> omega

/-- The sides at a place are different, and none is the reverse of another. -/
theorem nodup_sides (several : 3 ≤ segments) {row column : Nat} (before : column < segments) :
    (bothWays [diagonal segments row column, meridian row column,
      parallel segments row column]).Nodup := by
  obtain ⟨apart, _⟩ := following_apart several before
  simp [bothWays, diagonal, meridian, parallel, apart, apart.symm]

/-- No side of a grid is repeated, and none is the reverse of another. -/
theorem nodup_gridSides (several : 3 ≤ segments) (rows : Nat) :
    (bothWays ((List.range rows).flatMap fun row => (List.range segments).flatMap fun column =>
      [diagonal segments row column, meridian row column, parallel segments row column])).Nodup := by
  have parted (row : Nat) := bothWays_flatMap_perm (List.range segments) fun column =>
    [diagonal segments row column, meridian row column, parallel segments row column]
  rw [((bothWays_flatMap_perm _ _).trans
    (List.Perm.flatMap_left _ fun row _ => parted row)).nodup_iff]
  apply nodup_flatMap_of_owner ownerRow List.nodup_range
  · intro row _
    apply nodup_flatMap_of_owner (ownerColumn segments) List.nodup_range
    · exact fun column listed => nodup_sides several (List.mem_range.mp listed)
    · exact fun column listed edge side =>
        (owner_of_mem several (List.mem_range.mp listed) side).2
  · intro row _ edge side
    obtain ⟨column, listed, member⟩ := List.mem_flatMap.mp side
    exact (owner_of_mem several (List.mem_range.mp listed) member).1

/-- No side that the cells run along is repeated. They are sides of a grid of one row more,
which has sides below its last row as well. -/
theorem nodup_allSides (several : 3 ≤ segments) (rings : Nat) :
    (bothWays ((List.range rings).flatMap (spans segments) ++
      (List.range (rings + 1)).flatMap (parallels segments))).Nodup := by
  have extended : ((List.range rings).flatMap (spans segments)).Sublist
      ((List.range (rings + 1)).flatMap (spans segments)) := by
    rw [List.range_succ, List.flatMap_append]
    exact List.sublist_append_left _ _
  have grid : ((List.range (rings + 1)).flatMap (spans segments) ++
      (List.range (rings + 1)).flatMap (parallels segments)).Perm
      ((List.range (rings + 1)).flatMap fun row => (List.range segments).flatMap fun column =>
        [diagonal segments row column, meridian row column, parallel segments row column]) :=
    (List.flatMap_append_perm _ _ _).trans
      (List.Perm.flatMap_left _ fun _ _ => (flatMap_three_perm _ _ _ _).symm)
  have whole := (bothWays_perm grid).nodup_iff.mpr (nodup_gridSides several (rings + 1))
  have part := extended.append_right ((List.range (rings + 1)).flatMap (parallels segments))
  exact whole.sublist (part.append (part.map Prod.swap))

/-- A sphere whose seam is closed has a border at its poles and nowhere else. -/
theorem layout_bordered (several : 3 ≤ segments) {rings : Nat} (rows : 1 ≤ rings) :
    Bordered ((layout segments rings).map (Triangle.map (place segments)))
      (border segments rings) := by
  apply bordered_of_sides (sewn_edges_perm segments rings) (nodup_allSides several rings)
  intro edge onBorder
  rw [border_eq] at onBorder
  rw [(layout_edges_perm segments rings).mem_iff]
  rcases List.mem_append.mp onBorder with first | last
  · have top : 0 ∈ List.range rings := List.mem_range.mpr rows
    exact List.mem_append_left _
      (List.mem_flatMap.mpr ⟨0, top, List.mem_append_right _ first⟩)
  · obtain ⟨side, member, rfl⟩ := List.mem_map.mp last
    have bottom : rings - 1 ∈ List.range rings := List.mem_range.mpr (by omega)
    have above : rings - 1 + 1 = rings := Nat.sub_add_cancel rows
    refine List.mem_append_right _ (List.mem_map_of_mem (List.mem_flatMap.mpr
      ⟨rings - 1, bottom, List.mem_append_right _ ?_⟩))
    rwa [above]

end Once

section Mesh

variable {α : Type} [Trigonometric α] (radius : α)

/-- As long as its vertices can be numbered in words, a sphere with its seam closed is wound
alike everywhere: every directed edge of its triangles occurs once, and its reverse occurs
once, but for the edges around the two poles, which occur once and whose reverses never do.
Vertices are identified only within a row, and only the first one with the last one. -/
theorem identified_sphere_opens_at_poles {segments rings : UInt32} (columns : 3 ≤ segments)
    (rows : 1 ≤ rings) (room : (segments.toNat + 1) * (rings.toNat + 1) ≤ UInt32.size) :
    ∃ indices, (mesh radius segments rings).indices? = some indices ∧
      (Triangle.cut indices.vertices).length = 2 * (segments.toNat * rings.toNat) ∧
      Bordered ((Triangle.cut indices.vertices).map (Triangle.map (place segments.toNat)))
        (border segments.toNat rings.toNat) ∧
      ∀ row otherRow, ∀ column ≤ segments.toNat, ∀ other ≤ segments.toNat,
        place segments.toNat (vertexNumber segments.toNat row column) =
            place segments.toNat (vertexNumber segments.toNat otherRow other) ↔
          row = otherRow ∧ (column = other ∨ (column = 0 ∧ other = segments.toNat) ∨
            (column = segments.toNat ∧ other = 0)) := by
  have several : 3 ≤ segments.toNat := UInt32.le_iff_toNat_le.mp columns
  have ringed : 1 ≤ rings.toNat := UInt32.le_iff_toNat_le.mp rows
  have cut := IndexBuffer.cut_vertices_of_layout (exact_triangles room).view_eq
  refine ⟨.uint32 (Triangle.flatten (triangles segments rings)), rfl, ?_, ?_, ?_⟩
  · rw [cut, length_layout]
  · rw [cut]
    exact layout_bordered several ringed
  · exact fun row otherRow column inside other otherInside =>
      place_eq_iff inside otherInside row otherRow

/-- A sphere of four segments and two rings has sixteen triangles. Its fifth vertex has the
place of the first, and the edge from the first vertex to the second is not run back. -/
theorem small_sphere_opens_at_poles :
    (3 ≤ (4 : UInt32) ∧ 1 ≤ (2 : UInt32)) ∧
    ((4 : UInt32).toNat + 1) * ((2 : UInt32).toNat + 1) ≤ UInt32.size ∧
    ∃ indices, (mesh (1 : Float32) 4 2).indices? = some indices ∧
      (Triangle.cut indices.vertices).length = 16 ∧
      place 4 4 = place 4 0 ∧
      Bordered ((Triangle.cut indices.vertices).map (Triangle.map (place 4))) (border 4 2) ∧
      (place 4 1, place 4 0) ∉
        ((Triangle.cut indices.vertices).map (Triangle.map (place 4))).flatMap edges := by
  have columns : 3 ≤ (4 : UInt32) := by decide
  have rows : 1 ≤ (2 : UInt32) := by decide
  have room : ((4 : UInt32).toNat + 1) * ((2 : UInt32).toNat + 1) ≤ UInt32.size := by decide
  obtain ⟨indices, stored, triangles, bordered, identified⟩ :=
    identified_sphere_opens_at_poles (1 : Float32) columns rows room
  have seam : place 4 4 = place 4 0 := (identified 0 0 4 (by decide) 0 (by decide)).mpr (by decide)
  have pole : (place 4 0, place 4 1) ∈ border 4 2 := by decide
  exact ⟨⟨columns, rows⟩, room, indices, stored, triangles, seam, bordered,
    bordered.oneWay _ pole⟩

end Mesh

end RenderAssets.Shape.Sphere
