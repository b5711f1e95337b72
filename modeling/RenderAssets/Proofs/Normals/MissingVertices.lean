import RenderAssets.Proofs.Normals.TriangleRuns

/-!
# The first missing vertex is reported

Smooth normals and shared normals are computed from the same input in different ways: one
adds to the sums of the vertices, the other numbers what it sees. They stop alike. The number
of indices is looked at before any index, and an input whose indices form no whole triangles
is refused whatever they are. Otherwise the indices are looked up from left to right, and the
first that names no vertex is reported and ends the run, whatever has been computed so far.
If there is none, there is a result.

Smooth normals also write at the places that indices name. Each is looked up among the
positions before it is written to among the sums, and there are as many of the one as of the
other. So no write goes astray, and a run in which it could be noticed ends like one in which
it could not.
-/

namespace RenderAssets

/-- A vertex of a list is missing, and those in front of it are not. -/
def FirstMissing (vertices : List Nat) (count vertex : Nat) : Prop :=
  ∃ before after, vertices = before ++ vertex :: after ∧
    (∀ earlier ∈ before, earlier < count) ∧ count ≤ vertex

/-- When a routine over an index list stops, and what it reports. -/
structure StopsAtFirst {Value : Type} (outcome : Except MeshError Value) (operation : Operation)
    (indices : IndexBuffer) (count : Nat) : Prop where
  /-- The count of the indices is refused if they form no whole triangles. -/
  uncounted : outcome = .error (.indexCount operation) ↔ indices.length % 3 ≠ 0
  /-- Otherwise the run is abandoned if any index is out of range. -/
  abandoned : (∃ failure, outcome = .error failure ∧ failure.failureClass = .bounds) ↔
    indices.length % 3 = 0 ∧ ∃ vertex ∈ indices.vertices, count ≤ vertex
  /-- The first such index is reported. -/
  reported : ∀ vertex, outcome = .error (.missingVertex count vertex) ↔
    indices.length % 3 = 0 ∧ FirstMissing indices.vertices count vertex
  /-- In all other cases there is a result. -/
  accepted : (∃ value, outcome = .ok value) ↔
    indices.length % 3 = 0 ∧ ∀ vertex ∈ indices.vertices, vertex < count
  /-- There is no other failure. -/
  only : ∀ failure, outcome = .error failure →
    failure = .indexCount operation ∨ ∃ vertex, failure = .missingVertex count vertex

/-- Looking for a missing vertex from the left finds the first. -/
theorem find?_eq_some_iff_firstMissing {vertices : List Nat} {count vertex : Nat} :
    vertices.find? (count ≤ ·) = some vertex ↔ FirstMissing vertices count vertex := by
  rw [List.find?_eq_some_iff_append, FirstMissing]
  simp only [decide_eq_true_eq, Bool.not_eq_true', decide_eq_false_iff_not, Nat.not_le]
  constructor
  · rintro ⟨missing, before, after, split, inside⟩
    exact ⟨before, after, split, inside, missing⟩
  · rintro ⟨before, after, split, inside, missing⟩
    exact ⟨missing, before, after, split, inside⟩

/-- A vertex is missing exactly if one is the first to be. -/
theorem exists_firstMissing_iff {vertices : List Nat} {count : Nat} :
    (∃ vertex, FirstMissing vertices count vertex) ↔ ∃ vertex ∈ vertices, count ≤ vertex := by
  simp only [← find?_eq_some_iff_firstMissing, ← Option.isSome_iff_exists, List.find?_isSome,
    decide_eq_true_eq]

variable {α : Type} [Scalar α]

/-- A routine over an index list stops at the first missing vertex, whatever it carries along
and makes of it at the end. -/
theorem overIndices_stopsAtFirst {State Value : Type} (operation : Operation)
    (indices : IndexBuffer) (positions : Array (Vector3 α))
    (step : State → Triangle Nat → Triangle (Vector3 α) → State) (state : State)
    (finish : State → Value) :
    StopsAtFirst (overIndices operation indices positions step state finish) operation indices
      positions.size where
  uncounted := by simp [overIndices_eq_error_iff]
  abandoned := by
    simp only [overIndices_eq_error_iff, find?_eq_some_iff_firstMissing,
      ← exists_firstMissing_iff]
    constructor
    · rintro ⟨failure, ⟨_, rfl⟩ | ⟨whole, vertex, first, rfl⟩, bounds⟩
      · cases bounds
      · exact ⟨whole, vertex, first⟩
    · rintro ⟨whole, vertex, first⟩
      exact ⟨_, Or.inr ⟨whole, vertex, first, rfl⟩, rfl⟩
  reported := by simp [overIndices_eq_error_iff, ← find?_eq_some_iff_firstMissing]
  accepted := by
    simp only [overIndices_eq_ok_iff]
    constructor
    · rintro ⟨value, whole, inRange, _⟩
      exact ⟨whole, inRange⟩
    · rintro ⟨whole, inRange⟩
      exact ⟨_, whole, inRange, rfl⟩
  only := by
    intro failure failed
    rcases overIndices_eq_error_iff.mp failed with ⟨_, rfl⟩ | ⟨_, vertex, _, rfl⟩
    · exact Or.inl rfl
    · exact Or.inr ⟨vertex, rfl⟩

namespace SmoothNormals.Checked

/-- Why a run with checked writes ends without a result. -/
inductive Stop where
  /-- The run without the checks ends in the same way. -/
  | reported (failure : MeshError)
  /-- There is no sum to add to. -/
  | unwritable (length vertex : Nat)
  deriving DecidableEq, Repr

/-- Add to the sum of a vertex, which has to be there. -/
def addAt (sums : Array (Vector3 α)) (vertex : Nat) (normal : Vector3 α) :
    Except Stop (Array (Vector3 α)) :=
  if inside : vertex < sums.size then .ok (sums.set vertex (sums[vertex] + normal))
  else .error (.unwritable sums.size vertex)

/-- Add to the sums of the three corners, in corner order. -/
def addAtCorners (sums : Array (Vector3 α)) (triangle : Triangle Nat) (normal : Vector3 α) :
    Except Stop (Array (Vector3 α)) := do
  let firstAdded ← addAt sums triangle.first normal
  let secondAdded ← addAt firstAdded triangle.second normal
  addAt secondAdded triangle.third normal

/-- Add the triangles to the sums, up to the first missing vertex or lost write. -/
def accumulate (positions : Array (Vector3 α)) :
    List (Triangle Nat) → Array (Vector3 α) → Except Stop (Array (Vector3 α))
  | [], sums => .ok sums
  | triangle :: rest, sums =>
    match trianglePositions positions triangle with
    | .error failure => .error (.reported failure)
    | .ok corners => do
      let added ← addAtCorners sums triangle (weightedNormal corners)
      accumulate positions rest added

/-- One normal per position, with every write checked. -/
def ofIndices (indices : IndexBuffer) (positions : Array (Vector3 α)) :
    Except Stop (Array (Vector3 α)) :=
  if indices.length % 3 ≠ 0 then .error (.reported (.indexCount .smoothNormals))
  else
    (accumulate positions (Triangle.cut indices.vertices)
      (Array.replicate positions.size 0)).map (Array.map Vector3.normalize)

/-- Adding to a sum that is there is not noticed. -/
theorem addAt_eq {sums : Array (Vector3 α)} {vertex : Nat} (inside : vertex < sums.size)
    (normal : Vector3 α) : addAt sums vertex normal = .ok (sums.modify vertex (· + normal)) := by
  rw [addAt, dif_pos inside, Except.ok.injEq]
  apply Array.ext_getElem?
  intro place
  rw [Array.getElem?_set, Array.getElem?_modify]
  split
  case isTrue same =>
    subst same
    rw [Array.getElem?_eq_getElem inside, Option.map_some]
  case isFalse => rfl

/-- Adding at corners that all have sums is not noticed. -/
theorem addAtCorners_eq {sums : Array (Vector3 α)} {triangle : Triangle Nat}
    (inside : ∀ vertex ∈ triangle.corners, vertex < sums.size) (normal : Vector3 α) :
    addAtCorners sums triangle normal =
      .ok (SmoothNormals.addAtCorners sums triangle normal) := by
  simp only [Triangle.corners, List.forall_mem_cons] at inside
  obtain ⟨first, second, third, _⟩ := inside
  let firstAdded := sums.modify triangle.first (· + normal)
  let secondAdded := firstAdded.modify triangle.second (· + normal)
  -- Adding keeps the number of sums, so the later corners still have theirs.
  have secondInside : triangle.second < firstAdded.size := by rwa [Array.size_modify]
  have thirdInside : triangle.third < secondAdded.size := by
    rwa [Array.size_modify, Array.size_modify]
  calc addAtCorners sums triangle normal
      = addAt firstAdded triangle.second normal >>= (addAt · triangle.third normal) := by
        rw [addAtCorners, addAt_eq first]
        rfl
    _ = addAt secondAdded triangle.third normal := by
        rw [addAt_eq secondInside]
        rfl
    _ = .ok (secondAdded.modify triangle.third (· + normal)) := addAt_eq thirdInside normal

/-- With a sum for every position, checked writes are not noticed. Induction on the triangles:
corners that have positions have sums, and adding keeps the number of sums. -/
theorem accumulate_eq {positions : Array (Vector3 α)} {triangles : List (Triangle Nat)}
    {sums : Array (Vector3 α)} (sized : sums.size = positions.size) :
    accumulate positions triangles sums =
      (SmoothNormals.accumulate positions triangles sums).mapError .reported := by
  induction triangles generalizing sums with
  | nil => rfl
  | cons triangle rest inductionHypothesis =>
    rw [accumulate, SmoothNormals.accumulate]
    cases found : trianglePositions positions triangle with
    | error failure => rfl
    | ok corners =>
      have inside : ∀ vertex ∈ triangle.corners, vertex < sums.size := by
        rw [sized]
        exact (trianglePositions_eq_ok_iff.mp found).1
      simp only [addAtCorners_eq inside]
      exact inductionHypothesis (by rw [size_addAtCorners, sized])

/-- A run with checked writes ends like one without. -/
theorem ofIndices_eq (indices : IndexBuffer) (positions : Array (Vector3 α)) :
    ofIndices indices positions =
      (SmoothNormals.ofIndices indices positions).mapError .reported := by
  by_cases whole : indices.length % 3 = 0
  · simp only [ofIndices, SmoothNormals.ofIndices_eq_overIndices, overIndices, whole, ne_eq,
      not_true_eq_false, if_false, accumulate_eq Array.size_replicate,
      SmoothNormals.accumulate_eq_overTriangles]
    cases overTriangles positions _ (Triangle.cut indices.vertices) _ <;> rfl
  · simp only [ofIndices, SmoothNormals.ofIndices_eq_overIndices, overIndices, whole, ne_eq,
      not_false_eq_true, if_true]
    rfl

end SmoothNormals.Checked

/-- Smooth normals and shared normals are refused for the count of their indices alone,
whatever these are. Otherwise they are abandoned exactly if an index is out of range, and
both report the first that is. In all other cases there is a result; no sum is missing where
one is added to. -/
theorem first_missing_vertex_reported (indices : IndexBuffer) (positions : Array (Vector3 α)) :
    StopsAtFirst (SmoothNormals.ofIndices indices positions) .smoothNormals indices
        positions.size ∧
      StopsAtFirst (SharedNormals.ofIndices indices positions) .sharedNormals indices
        positions.size ∧
      SmoothNormals.Checked.ofIndices indices positions =
        (SmoothNormals.ofIndices indices positions).mapError .reported := by
  refine ⟨?_, ?_, SmoothNormals.Checked.ofIndices_eq indices positions⟩
  · rw [SmoothNormals.ofIndices_eq_overIndices]
    apply overIndices_stopsAtFirst
  · rw [SharedNormals.ofIndices_eq_overIndices]
    apply overIndices_stopsAtFirst

end RenderAssets
