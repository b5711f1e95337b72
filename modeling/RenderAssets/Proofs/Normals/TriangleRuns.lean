import RenderAssets.Normals.Shared

/-!
# Runs over the triangles of an index list

Routines that take indices go through the triangles in order, look up where the three
corners stand, and carry something along. They all stop at the first missing vertex.
Such a run succeeds exactly if no index is out of range, and then it is a plain fold over
the triangles with their corners in place. Otherwise it reports the first index of the list
that is out of range.

Unrolling writes down the position of every corner. The triangles of an unrolled list are
those of the index list, with positions for vertices.
-/

namespace RenderAssets

namespace Triangle

variable {κ ν : Type}

/-- Corners that begin no triangle are fewer than three. -/
theorem length_lt_of_no_triangle {cornerList : List κ}
    (short : ∀ first second third rest,
      cornerList = first :: second :: third :: rest → False) : cornerList.length < 3 := by
  match cornerList, short with
  | [], _ | [_], _ | [_, _], _ => simp
  | first :: second :: third :: rest, short => exact (short first second third rest rfl).elim

/-- Fewer than three corners form no triangle. -/
theorem cut_of_short {cornerList : List κ} (short : cornerList.length < 3) :
    cut cornerList = [] := by
  match cornerList, short with
  | [], _ | [_], _ | [_, _], _ => rfl

/-- The corners of some triangles are the corners of one of them. -/
theorem mem_flatten {corner : κ} {triangles : List (Triangle κ)} :
    corner ∈ flatten triangles ↔ ∃ triangle ∈ triangles, corner ∈ triangle.corners := by
  simp [flatten]

/-- The corners of a triangle of images are the images of its corners. -/
theorem corners_map (image : κ → ν) (triangle : Triangle κ) :
    (triangle.map image).corners = triangle.corners.map image := rfl

/-- The concatenated corners of triangles of images are the images of the corners. -/
theorem flatten_map (image : κ → ν) (triangles : List (Triangle κ)) :
    flatten (triangles.map (map image)) = (flatten triangles).map image := by
  simp [flatten, List.flatMap_map, List.map_flatMap, corners_map]

/-- The images of corners form the triangles of the images. -/
theorem cut_map (image : κ → ν) (cornerList : List κ) :
    cut (cornerList.map image) = (cut cornerList).map (map image) := by
  fun_induction cut cornerList with
  | case1 first second third rest inductionHypothesis =>
    simp only [List.map_cons, cut, inductionHypothesis, map]
  | case2 rest short =>
    rw [List.map_nil, cut_of_short]
    simpa using length_lt_of_no_triangle short

/-- As many whole triangles as three goes into the number of corners. -/
theorem length_cut (cornerList : List κ) : (cut cornerList).length = cornerList.length / 3 := by
  fun_induction cut cornerList with
  | case1 first second third rest inductionHypothesis =>
    simp only [List.length_cons, inductionHypothesis]
    omega
  | case2 rest short => exact (Nat.div_eq_of_lt (length_lt_of_no_triangle short)).symm

/-- The triangles of a corner list take three corners each, in order. -/
theorem getElem?_cut_eq_some_iff {cornerList : List κ} {place : Nat} {triangle : Triangle κ} :
    (cut cornerList)[place]? = some triangle ↔
      cornerList[3 * place]? = some triangle.first ∧
        cornerList[3 * place + 1]? = some triangle.second ∧
        cornerList[3 * place + 2]? = some triangle.third := by
  fun_induction cut cornerList generalizing place with
  | case1 first second third rest inductionHypothesis =>
    cases place with
    | zero => simp [Triangle.ext_iff]
    | succ place =>
      rw [List.getElem?_cons_succ, inductionHypothesis]
      simp [Nat.mul_add]
  | case2 rest short =>
    have beyond : rest[3 * place + 2]? = none := by
      have few := length_lt_of_no_triangle short
      exact List.getElem?_eq_none (by omega)
    simp [beyond]

/-- What is said of triangles is repeated for their three corners. -/
theorem length_repeated (entries : List κ) :
    (entries.flatMap (List.replicate 3)).length = 3 * entries.length := by
  induction entries with
  | nil => rfl
  | cons entry rest inductionHypothesis =>
    rw [List.flatMap_cons, List.length_append, List.length_replicate, inductionHypothesis,
      List.length_cons]
    omega

/-- A corner has what is said of the triangle at a third of its place. -/
theorem getElem?_repeated (entries : List κ) (corner : Nat) :
    (entries.flatMap (List.replicate 3))[corner]? = entries[corner / 3]? := by
  induction entries generalizing corner with
  | nil => rfl
  | cons entry rest inductionHypothesis =>
    rw [List.flatMap_cons]
    by_cases own : corner < 3
    · rw [List.getElem?_append_left (by rwa [List.length_replicate]),
        List.getElem?_replicate_of_lt own, Nat.div_eq_of_lt own, List.getElem?_cons_zero]
    · have later : corner / 3 = (corner - 3) / 3 + 1 := by omega
      rw [List.getElem?_append_right (by rw [List.length_replicate]; omega),
        List.length_replicate, inductionHypothesis, later, List.getElem?_cons_succ]

end Triangle

/-- Whole triangles have all the indices for corners. -/
theorem IndexBuffer.flatten_cut_vertices {indices : IndexBuffer}
    (whole : indices.length % 3 = 0) :
    Triangle.flatten (Triangle.cut indices.vertices) = indices.vertices :=
  Triangle.flatten_cut _ (by rw [length_vertices, whole])

variable {α : Type} [Scalar α]

/-- Where a vertex stands. A missing vertex has the origin for a stand-in. -/
def cornerPosition (positions : Array (Vector3 α)) (vertex : Nat) : Vector3 α :=
  positions.getD vertex 0

/-- The vertices that are not missing stand where they are said to. -/
theorem getElem?_eq_cornerPosition {positions : Array (Vector3 α)} {vertex : Nat}
    (inside : vertex < positions.size) :
    positions[vertex]? = some (cornerPosition positions vertex) := by
  simp [cornerPosition, inside]

/-- Looking up a vertex succeeds exactly if it is not missing. -/
theorem vertexPosition_eq_ok_iff {positions : Array (Vector3 α)} {vertex : Nat}
    {position : Vector3 α} :
    vertexPosition positions vertex = .ok position ↔
      vertex < positions.size ∧ cornerPosition positions vertex = position := by
  by_cases inside : vertex < positions.size
  · rw [vertexPosition, getElem?_eq_cornerPosition inside, Except.ok.injEq]
    exact (and_iff_right inside).symm
  · simp [vertexPosition, inside]

/-- Looking up a vertex fails exactly if it is missing, and reports it. -/
theorem vertexPosition_eq_error_iff {positions : Array (Vector3 α)} {vertex : Nat}
    {failure : MeshError} :
    vertexPosition positions vertex = .error failure ↔
      positions.size ≤ vertex ∧ .missingVertex positions.size vertex = failure := by
  by_cases missing : positions.size ≤ vertex
  · simp [vertexPosition, missing]
  · simp [vertexPosition_eq_ok_iff.mpr ⟨Nat.not_le.mp missing, rfl⟩, missing]

/-- Looking up the corners of a triangle succeeds exactly if none is missing. The corners
are looked up one by one, and each look-up has to succeed. -/
theorem trianglePositions_eq_ok_iff {positions : Array (Vector3 α)} {triangle : Triangle Nat}
    {corners : Triangle (Vector3 α)} :
    trianglePositions positions triangle = .ok corners ↔
      (∀ vertex ∈ triangle.corners, vertex < positions.size) ∧
        triangle.map (cornerPosition positions) = corners := by
  have inside : (∀ vertex ∈ triangle.corners, vertex < positions.size) ↔
      triangle.first < positions.size ∧ triangle.second < positions.size ∧
        triangle.third < positions.size := by simp [Triangle.corners]
  rw [inside]
  constructor
  · intro found
    cases firstFound : vertexPosition positions triangle.first with
    | error failure => simp [trianglePositions, firstFound] at found
    | ok first =>
      cases secondFound : vertexPosition positions triangle.second with
      | error failure => simp [trianglePositions, firstFound, secondFound] at found
      | ok second =>
        cases thirdFound : vertexPosition positions triangle.third with
        | error failure => simp [trianglePositions, firstFound, secondFound, thirdFound] at found
        | ok third =>
          obtain ⟨firstInside, rfl⟩ := vertexPosition_eq_ok_iff.mp firstFound
          obtain ⟨secondInside, rfl⟩ := vertexPosition_eq_ok_iff.mp secondFound
          obtain ⟨thirdInside, rfl⟩ := vertexPosition_eq_ok_iff.mp thirdFound
          simp only [trianglePositions, firstFound, secondFound, thirdFound,
            Except.ok.injEq] at found
          exact ⟨⟨firstInside, secondInside, thirdInside⟩, found⟩
  · rintro ⟨⟨firstInside, secondInside, thirdInside⟩, rfl⟩
    simp only [trianglePositions, vertexPosition_eq_ok_iff.mpr ⟨firstInside, rfl⟩,
      vertexPosition_eq_ok_iff.mpr ⟨secondInside, rfl⟩,
      vertexPosition_eq_ok_iff.mpr ⟨thirdInside, rfl⟩, Triangle.map]

/-- Looking up the corners of a triangle fails exactly at the first that is missing. -/
theorem trianglePositions_eq_error_iff {positions : Array (Vector3 α)}
    {triangle : Triangle Nat} {failure : MeshError} :
    trianglePositions positions triangle = .error failure ↔
      ∃ vertex, triangle.corners.find? (positions.size ≤ ·) = some vertex ∧
        .missingVertex positions.size vertex = failure := by
  rw [trianglePositions, Triangle.corners]
  cases first : vertexPosition positions triangle.first with
  | error missing =>
    obtain ⟨beyond, rfl⟩ := vertexPosition_eq_error_iff.mp first
    simp [beyond]
  | ok firstPosition =>
    have firstInside := (vertexPosition_eq_ok_iff.mp first).1
    cases second : vertexPosition positions triangle.second with
    | error missing =>
      obtain ⟨beyond, rfl⟩ := vertexPosition_eq_error_iff.mp second
      simp [firstInside, beyond]
    | ok secondPosition =>
      have secondInside := (vertexPosition_eq_ok_iff.mp second).1
      cases third : vertexPosition positions triangle.third with
      | error missing =>
        obtain ⟨beyond, rfl⟩ := vertexPosition_eq_error_iff.mp third
        simp [firstInside, secondInside, beyond]
      | ok thirdPosition =>
        have thirdInside := (vertexPosition_eq_ok_iff.mp third).1
        simp [firstInside, secondInside, thirdInside]

/-- A run over triangles with their corners in place, up to the first missing vertex. What
is carried along changes with every triangle. -/
def overTriangles {State : Type} (positions : Array (Vector3 α))
    (step : State → Triangle Nat → Triangle (Vector3 α) → State) :
    List (Triangle Nat) → State → Except MeshError State
  | [], state => .ok state
  | triangle :: rest, state =>
    match trianglePositions positions triangle with
    | .error failure => .error failure
    | .ok corners => overTriangles positions step rest (step state triangle corners)

/-- A run succeeds exactly if no vertex is missing, and then it is a fold. -/
theorem overTriangles_eq_ok_iff {State : Type} {positions : Array (Vector3 α)}
    {step : State → Triangle Nat → Triangle (Vector3 α) → State}
    {triangles : List (Triangle Nat)} {state final : State} :
    overTriangles positions step triangles state = .ok final ↔
      (∀ vertex ∈ Triangle.flatten triangles, vertex < positions.size) ∧
        triangles.foldl (fun state triangle =>
          step state triangle (triangle.map (cornerPosition positions))) state = final := by
  induction triangles generalizing state with
  | nil => simp [overTriangles, Triangle.flatten]
  | cons triangle rest inductionHypothesis =>
    have both : (∀ vertex ∈ Triangle.flatten (triangle :: rest), vertex < positions.size) ↔
        (∀ vertex ∈ triangle.corners, vertex < positions.size) ∧
          ∀ vertex ∈ Triangle.flatten rest, vertex < positions.size := by
      simp only [Triangle.flatten, List.flatMap_cons, List.forall_mem_append]
    rw [overTriangles, both, List.foldl_cons]
    cases found : trianglePositions positions triangle with
    | error failure =>
      have missing : ¬ ∀ vertex ∈ triangle.corners, vertex < positions.size := by
        intro inside
        rw [trianglePositions_eq_ok_iff.mpr ⟨inside, rfl⟩] at found
        cases found
      simp [missing]
    | ok corners =>
      obtain ⟨inside, rfl⟩ := trianglePositions_eq_ok_iff.mp found
      rw [inductionHypothesis, and_assoc]
      exact (and_iff_right inside).symm

/-- A run fails exactly at the first vertex that is missing, in the order of the triangles
and of the corners in each. -/
theorem overTriangles_eq_error_iff {State : Type} {positions : Array (Vector3 α)}
    {step : State → Triangle Nat → Triangle (Vector3 α) → State}
    {triangles : List (Triangle Nat)} {state : State} {failure : MeshError} :
    overTriangles positions step triangles state = .error failure ↔
      ∃ vertex, (Triangle.flatten triangles).find? (positions.size ≤ ·) = some vertex ∧
        .missingVertex positions.size vertex = failure := by
  induction triangles generalizing state with
  | nil => simp [overTriangles, Triangle.flatten]
  | cons triangle rest inductionHypothesis =>
    have split : Triangle.flatten (triangle :: rest) =
        triangle.corners ++ Triangle.flatten rest := List.flatMap_cons
    rw [overTriangles, split, List.find?_append]
    cases found : trianglePositions positions triangle with
    | error missing =>
      obtain ⟨vertex, first, rfl⟩ := trianglePositions_eq_error_iff.mp found
      simp [first]
    | ok corners =>
      have none : triangle.corners.find? (positions.size ≤ ·) = none := by
        simpa using (trianglePositions_eq_ok_iff.mp found).1
      rw [none, Option.none_or]
      exact inductionHypothesis

/-- Adding up normals is such a run. -/
theorem SmoothNormals.accumulate_eq_overTriangles (positions : Array (Vector3 α))
    (triangles : List (Triangle Nat)) (sums : Array (Vector3 α)) :
    accumulate positions triangles sums = overTriangles positions
      (fun sums triangle corners => addAtCorners sums triangle (weightedNormal corners))
      triangles sums := by
  induction triangles generalizing sums with
  | nil => rfl
  | cons triangle rest inductionHypothesis =>
    rw [accumulate, overTriangles]
    cases trianglePositions positions triangle with
    | error failure => rfl
    | ok corners => exact inductionHypothesis _

/-- Numbering normals is such a run. -/
theorem SharedNormals.numberAll_eq_overTriangles (positions : Array (Vector3 α))
    (triangles : List (Triangle Nat)) (numbering : Numbering α) :
    numberAll positions triangles numbering = overTriangles positions
      (fun numbering _ corners => numbering.insert (FlatNormals.faceNormal corners))
      triangles numbering := by
  induction triangles generalizing numbering with
  | nil => rfl
  | cons triangle rest inductionHypothesis =>
    rw [numberAll, overTriangles]
    cases trianglePositions positions triangle with
    | error failure => rfl
    | ok corners => exact inductionHypothesis _

section Routines

variable {State Value : Type} {operation : Operation} {indices : IndexBuffer}
  {positions : Array (Vector3 α)} {step : State → Triangle Nat → Triangle (Vector3 α) → State}
  {state : State} {finish : State → Value}

/-- A routine over an index list: the count of the indices is looked at first, and then the
triangles are run over. -/
def overIndices (operation : Operation) (indices : IndexBuffer) (positions : Array (Vector3 α))
    (step : State → Triangle Nat → Triangle (Vector3 α) → State) (state : State)
    (finish : State → Value) : Except MeshError Value :=
  if indices.length % 3 ≠ 0 then .error (.indexCount operation)
  else (overTriangles positions step (Triangle.cut indices.vertices) state).map finish

/-- A routine succeeds exactly if the indices form whole triangles and none is out of range. -/
theorem overIndices_eq_ok_iff {value : Value} :
    overIndices operation indices positions step state finish = .ok value ↔
      indices.length % 3 = 0 ∧ (∀ vertex ∈ indices.vertices, vertex < positions.size) ∧
        finish ((Triangle.cut indices.vertices).foldl (fun state triangle =>
          step state triangle (triangle.map (cornerPosition positions))) state) = value := by
  by_cases whole : indices.length % 3 = 0
  · have mapped (run : Except MeshError State) :
        run.map finish = .ok value ↔ ∃ final, run = .ok final ∧ finish final = value := by
      cases run <;> simp [Except.map]
    simp only [overIndices, whole, ne_eq, not_true_eq_false, if_false, mapped,
      overTriangles_eq_ok_iff, IndexBuffer.flatten_cut_vertices whole, and_assoc, true_and,
      exists_and_left, exists_eq_left']
  · simp [overIndices, whole]

/-- A routine fails exactly for a bad count, or else at the first vertex that is missing. -/
theorem overIndices_eq_error_iff {failure : MeshError} :
    overIndices operation indices positions step state finish = .error failure ↔
      (indices.length % 3 ≠ 0 ∧ .indexCount operation = failure) ∨
        (indices.length % 3 = 0 ∧ ∃ vertex,
          indices.vertices.find? (positions.size ≤ ·) = some vertex ∧
            .missingVertex positions.size vertex = failure) := by
  by_cases whole : indices.length % 3 = 0
  · have mapped (run : Except MeshError State) :
        run.map finish = .error failure ↔ run = .error failure := by
      cases run <;> simp [Except.map]
    simp only [overIndices, whole, ne_eq, not_true_eq_false, if_false, mapped,
      overTriangles_eq_error_iff, IndexBuffer.flatten_cut_vertices whole, false_and, false_or,
      true_and]
  · simp [overIndices, whole]

end Routines

/-- Smooth normals are such a routine. -/
theorem SmoothNormals.ofIndices_eq_overIndices (indices : IndexBuffer)
    (positions : Array (Vector3 α)) :
    ofIndices indices positions = overIndices .smoothNormals indices positions
      (fun sums triangle corners => addAtCorners sums triangle (weightedNormal corners))
      (Array.replicate positions.size 0) (Array.map Vector3.normalize) := by
  by_cases whole : indices.length % 3 = 0
  · simp only [ofIndices, fill, overIndices, whole, ne_eq, not_true_eq_false, if_false,
      Array.size_replicate, Array.map_replicate, accumulate_eq_overTriangles]
    cases overTriangles positions _ (Triangle.cut indices.vertices) _ <;> rfl
  · simp [ofIndices, fill, overIndices, whole, Filling.result]

/-- Shared normals are such a routine. -/
theorem SharedNormals.ofIndices_eq_overIndices (indices : IndexBuffer)
    (positions : Array (Vector3 α)) :
    ofIndices indices positions = overIndices .sharedNormals indices positions
      (fun numbering _ corners => numbering.insert (FlatNormals.faceNormal corners))
      {} Numbering.finish := by
  by_cases whole : indices.length % 3 = 0
  · simp only [ofIndices, overIndices, whole, ne_eq, not_true_eq_false, if_false,
      numberAll_eq_overTriangles]
    cases overTriangles positions _ (Triangle.cut indices.vertices) _ <;> rfl
  · simp [ofIndices, overIndices, whole]

end RenderAssets
