import RenderAssets.Shape.Sphere
import RenderAssets.Proofs.Shape.ExactNumbers
import RenderAssets.Proofs.Shape.SoundLayouts

/-!
# The vertices of the sphere

The layout of a sphere is its list of triangles over numbers that are not bounded. With
segments and rings that leave room for all vertices in words, the triangles that are
computed stand for the layout, and no sum or product on the way wraps.

A cell of the grid lies between a row and the next one and between a column and the next
one. Its two triangles name its four vertices, and every vertex belongs to a cell: in the
last row to a cell above it, and in the last column to a cell before it.
-/

namespace RenderAssets.Shape.Sphere

section Layout

/-- The vertex at a row and a column. -/
def vertexNumber (segments row column : Nat) : Nat := row * (segments + 1) + column

/-- The two triangles of a cell. -/
def cellLayout (segments row column : Nat) : List (Triangle Nat) :=
  let current := vertexNumber segments row column
  let below := current + segments + 1
  [⟨current, current + 1, below⟩, ⟨current + 1, below + 1, below⟩]

/-- The cells of the grid, row by row. -/
def layout (segments rings : Nat) : List (Triangle Nat) :=
  (List.range rings).flatMap fun row =>
    (List.range segments).flatMap fun column => cellLayout segments row column

end Layout

section Checked

/-- The vertex at a row and a column. -/
def vertex? (segments row column : UInt32) : Option UInt32 :=
  sum? (product? (some row) (sum? (some segments) (some 1))) (some column)

/-- The two triangles of a cell. -/
def cellTriangles? (segments row column : UInt32) : Option (List (Triangle UInt32)) :=
  let current := vertex? segments row column
  let beside := sum? current (some 1)
  let below := sum? (sum? current (some segments)) (some 1)
  pair? (triangle? current beside below) (triangle? beside (sum? below (some 1)) below)

/-- The cells of the grid, row by row. -/
def triangles? (segments rings : UInt32) : Option (List (Triangle UInt32)) :=
  ((steps rings.toNat).mapM fun row =>
    ((steps segments.toNat).mapM fun column =>
      cellTriangles? segments row column).map List.flatten).map List.flatten

end Checked

/-- A row and the one below it are among the rows of the grid. -/
theorem rows_fit (segments : Nat) {rings row : Nat} (inside : row < rings) :
    row * (segments + 1) + 2 * (segments + 1) ≤ (segments + 1) * (rings + 1) := by
  have higher : (row + 2) * (segments + 1) ≤ (rings + 1) * (segments + 1) :=
    Nat.mul_le_mul_right _ (by omega)
  rwa [Nat.add_mul, Nat.mul_comm (rings + 1)] at higher

section Exact

variable {segments rings : UInt32}
  (room : (segments.toNat + 1) * (rings.toNat + 1) ≤ UInt32.size)
include room

/-- The triangles of a cell are exact. -/
theorem exact_cellTriangles {row column : UInt32} (above : row.toNat < rings.toNat)
    (before : column.toNat < segments.toNat) :
    Exact (List.map (Triangle.map UInt32.toNat)) (cellTriangles? segments row column)
      (cellTriangles segments row column) (cellLayout segments.toNat row.toNat column.toNat) := by
  have fits := rows_fit segments.toNat above
  have width : Exact UInt32.toNat (sum? (some segments) (some 1)) (segments + 1)
      (segments.toNat + 1) := (Exact.given segments).sum .one (by omega)
  have start : Exact UInt32.toNat (product? (some row) (sum? (some segments) (some 1)))
      (row * (segments + 1)) (row.toNat * (segments.toNat + 1)) :=
    (Exact.given row).product width (by omega)
  have current : Exact UInt32.toNat (vertex? segments row column) (vertex segments row column)
      (vertexNumber segments.toNat row.toNat column.toNat) :=
    start.sum (.given column) (by omega)
  have small : vertexNumber segments.toNat row.toNat column.toNat + segments.toNat + 2 <
      UInt32.size := by
    rw [vertexNumber]
    omega
  have beside := current.sum .one (by omega)
  have below := (current.sum (.given segments) (by omega)).sum .one (by omega)
  exact (current.triangle beside below).pair
    (beside.triangle (below.sum .one (by omega)) below)

/-- The triangles of the sphere are computed without wrapping, and stand for its layout. -/
theorem exact_triangles :
    Exact (List.map (Triangle.map UInt32.toNat)) (triangles? segments rings)
      (triangles segments rings) (layout segments.toNat rings.toNat) :=
  .joinedOverSteps (Nat.le_of_lt rings.toNat_lt_size) fun _ above =>
    .joinedOverSteps (Nat.le_of_lt segments.toNat_lt_size) fun _ before =>
      exact_cellTriangles room above before

end Exact

section Cover

variable {segments rings : Nat}

/-- A triangle of the layout is one of a cell. -/
theorem mem_layout_iff {triangle : Triangle Nat} :
    triangle ∈ layout segments rings ↔
      ∃ row < rings, ∃ column < segments, triangle ∈ cellLayout segments row column := by
  simp only [layout, List.mem_flatMap, List.mem_range]

/-- There are two triangles for every cell. -/
theorem length_layout (segments rings : Nat) :
    (layout segments rings).length = 2 * (segments * rings) := by
  have pair (row column : Nat) : (cellLayout segments row column).length = 2 := rfl
  simp only [layout, List.length_flatMap, pair, List.map_const', List.length_range,
    List.sum_replicate_nat]
  rw [Nat.mul_comm rings, Nat.mul_right_comm, Nat.mul_comm]

/-- A triangle of a cell has three different corners that are there. -/
theorem cellLayout_proper (several : 1 ≤ segments) {row column : Nat} (above : row < rings)
    (before : column < segments) {triangle : Triangle Nat}
    (listed : triangle ∈ cellLayout segments row column) :
    (∀ vertex ∈ triangle.corners, vertex < (segments + 1) * (rings + 1)) ∧
      triangle.corners.Nodup := by
  have fits := rows_fit segments above
  rw [Triangle.proper_iff]
  simp only [cellLayout, List.mem_cons, List.not_mem_nil, or_false] at listed
  rcases listed with rfl | rfl <;> simp only [vertexNumber] <;> omega

/-- The triangles of a cell name its four vertices. -/
theorem corner_of_cell (segments row column : Nat) {down across : Nat} (downOne : down ≤ 1)
    (acrossOne : across ≤ 1) :
    ∃ triangle ∈ cellLayout segments row column,
      vertexNumber segments (row + down) (column + across) ∈ triangle.corners := by
  have place : vertexNumber segments (row + down) (column + across) =
      vertexNumber segments row column + down * (segments + 1) + across := by
    rw [vertexNumber, vertexNumber, Nat.add_mul]
    omega
  have choices : (down = 0 ∨ down = 1) ∧ (across = 0 ∨ across = 1) := by omega
  rw [place, cellLayout]
  obtain ⟨rfl | rfl, rfl | rfl⟩ := choices
  · exact ⟨_, List.mem_cons_self, by simp [Triangle.corners]⟩
  · exact ⟨_, List.mem_cons_self, by simp [Triangle.corners]⟩
  · exact ⟨_, List.mem_cons_self, by simp [Triangle.corners, Nat.add_assoc]⟩
  · exact ⟨_, List.mem_cons_of_mem _ List.mem_cons_self, by simp [Triangle.corners, Nat.add_assoc]⟩

/-- The layout covers the vertices of all rows. -/
theorem layout_cover (columns : 1 ≤ segments) (rows : 1 ≤ rings) :
    Triangle.Cover (layout segments rings) ((segments + 1) * (rings + 1)) := by
  apply Triangle.cover_of_proper
  · intro triangle listed
    obtain ⟨row, above, column, before, member⟩ := mem_layout_iff.mp listed
    exact cellLayout_proper columns above before member
  · intro vertex there
    have row : vertex / (segments + 1) < rings + 1 := Nat.div_lt_of_lt_mul there
    have column : vertex % (segments + 1) < segments + 1 := Nat.mod_lt _ (by omega)
    -- The last row and the last column begin no cell, so the cell before them is taken.
    obtain ⟨above, down, cellRow, downOne, rowEq⟩ : ∃ above down, above < rings ∧ down ≤ 1 ∧
        vertex / (segments + 1) = above + down :=
      ⟨min (vertex / (segments + 1)) (rings - 1), vertex / (segments + 1) - (rings - 1),
        by omega, by omega, by omega⟩
    obtain ⟨before, across, cellColumn, acrossOne, columnEq⟩ : ∃ before across,
        before < segments ∧ across ≤ 1 ∧ vertex % (segments + 1) = before + across :=
      ⟨min (vertex % (segments + 1)) (segments - 1), vertex % (segments + 1) - (segments - 1),
        by omega, by omega, by omega⟩
    have named : vertex = vertexNumber segments (above + down) (before + across) := by
      rw [← rowEq, ← columnEq, vertexNumber, Nat.div_add_mod']
    obtain ⟨triangle, member, corner⟩ :=
      corner_of_cell segments above before downOne acrossOne
    exact ⟨triangle, mem_layout_iff.mpr ⟨above, cellRow, before, cellColumn, member⟩,
      named ▸ corner⟩

end Cover

section Mesh

variable {α : Type} [Trigonometric α] (radius : α)

/-- There is a direction for every vertex. -/
theorem length_directions (segments rings : UInt32) :
    (directions segments rings : List (Vector3 α)).length =
      (segments.toNat + 1) * (rings.toNat + 1) := by
  simp only [directions, List.length_flatMap, List.length_map, length_steps, List.map_const',
    List.sum_replicate_nat]
  exact Nat.mul_comm _ _

/-- A sphere whose vertices can be numbered in words is sound, and its triangles are those
that are computed without wrapping. -/
theorem mesh_indexSound {segments rings : UInt32} (columns : 1 ≤ segments) (rows : 1 ≤ rings)
    (room : (segments.toNat + 1) * (rings.toNat + 1) ≤ UInt32.size) :
    ∃ triangles, triangles? segments rings = some triangles ∧
      (mesh radius segments rings).IndexSound (.uint32 (Triangle.flatten triangles))
        ((segments.toNat + 1) * (rings.toNat + 1)) (6 * segments.toNat * rings.toNat) := by
  obtain ⟨triangles?, numbers⟩ := exact_triangles room
  have cover := layout_cover (UInt32.le_iff_toNat_le.mp columns) (UInt32.le_iff_toNat_le.mp rows)
  have corners : 6 * segments.toNat * rings.toNat =
      3 * (layout segments.toNat rings.toNat).length := by
    rw [length_layout, Nat.mul_assoc 6]
    omega
  have positions : ((directions segments rings).map (·.scale radius)).length =
      (segments.toNat + 1) * (rings.toNat + 1) := by
    rw [List.length_map, length_directions]
  refine ⟨triangles segments rings, triangles?, ?_⟩
  rw [corners]
  exact TriangleMesh.indexSound_of_layout numbers cover positions
    ⟨_, rfl, length_directions segments rings⟩ rfl

end Mesh

end RenderAssets.Shape.Sphere
