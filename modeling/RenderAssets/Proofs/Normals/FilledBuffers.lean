import RenderAssets.Proofs.Normals.UnrolledCorners
import RenderAssets.Proofs.Normals.VertexSums

/-!
# Filling a buffer of the caller

Flat and smooth normals are written into a buffer that is handed in. The count of what is
to be read is checked first and the size of the buffer second, and a call that fails one
of these checks leaves the buffer as it was. A call that passes both starts afresh: what
it leaves behind is the same whatever the buffer held, and the same as in a new buffer,
which is how the allocating forms are made.

Flat normals are painted over every entry, and smooth normals are added up from a cleared
buffer. Only a missing vertex can stop the latter after the checks, and that is no refusal.
-/

namespace RenderAssets

variable {α : Type}

namespace Filling

/-- A routine refuses a buffer before it writes anything, or else fills it without looking
at what it holds. The routine needs whole triangles and a buffer of a certain size. It has
a failure of its own for the first and signs the second; its input may have to be in range
as well. What it fills a buffer with is what its allocating form returns. -/
structure AllOrNothing (fill : Array (Vector3 α) → Filling α) (whole inRange : Prop)
    (countFailure : MeshError) (operation : Operation) (size : Nat)
    (allocated : Except MeshError (Array (Vector3 α))) : Prop where
  /-- The count is checked first. -/
  count_refused : ∀ buffer, (fill buffer).failure? = some countFailure ↔ ¬ whole
  /-- The size of the buffer is checked second. -/
  size_refused : ∀ buffer,
    (fill buffer).failure? = some (.outputSize operation size buffer.size) ↔
      whole ∧ buffer.size ≠ size
  /-- A refused buffer is left as it was. -/
  refused_kept : ∀ buffer, ¬ whole ∨ buffer.size ≠ size → (fill buffer).buffer = buffer
  /-- Otherwise the call goes through, and leaves what the allocating form returns. -/
  filled : ∀ buffer, whole → inRange → buffer.size = size →
    (fill buffer).failure? = none ∧ (fill buffer).buffer.size = size ∧
      allocated = .ok (fill buffer).buffer
  /-- No entry of it depends on what the buffer held. -/
  overwritten : ∀ buffer other, whole → inRange → buffer.size = size → other.size = size →
    fill buffer = fill other

/-- It is enough to know the two refusals, and that all buffers of the right size come to
the same: a full one of that size, or a failure to find a vertex. -/
theorem allOrNothing_of_outcomes {fill : Array (Vector3 α) → Filling α} {whole inRange : Prop}
    {countFailure : MeshError} {operation : Operation} {size : Nat}
    {allocated : Except MeshError (Array (Vector3 α))} (outcome : Filling α)
    (argument : countFailure.failureClass = .argument)
    (counted : ∀ expected got, countFailure ≠ .outputSize operation expected got)
    (uncounted : ¬ whole → ∀ buffer, fill buffer = { buffer, failure? := some countFailure })
    (unsized : whole → ∀ buffer, buffer.size ≠ size →
      fill buffer = { buffer, failure? := some (.outputSize operation size buffer.size) })
    (same : whole → ∀ buffer, buffer.size = size → fill buffer = outcome)
    (unrefused : whole → ∀ failure ∈ outcome.failure?, failure.failureClass = .bounds)
    (full : whole → inRange → outcome.failure? = none ∧ outcome.buffer.size = size)
    (alloc : whole → allocated = outcome.result) :
    AllOrNothing fill whole inRange countFailure operation size allocated where
  count_refused := by
    intro buffer
    by_cases holds : whole
    · refine iff_of_false ?_ (not_not.mpr holds)
      by_cases sized : buffer.size = size
      · rw [same holds buffer sized]
        intro refused
        have classes := argument.symm.trans (unrefused holds _ refused)
        cases classes
      · rw [unsized holds buffer sized]
        exact fun refused => counted _ _ (Option.some.inj refused).symm
    · rw [uncounted holds buffer]
      exact iff_of_true rfl holds
  size_refused := by
    intro buffer
    by_cases holds : whole
    · by_cases sized : buffer.size = size
      · refine iff_of_false ?_ (fun wrong => wrong.2 sized)
        rw [same holds buffer sized]
        intro refused
        have classes := unrefused holds _ refused
        cases classes
      · rw [unsized holds buffer sized]
        exact iff_of_true rfl ⟨holds, sized⟩
    · rw [uncounted holds buffer]
      exact iff_of_false (fun refused => counted _ _ (Option.some.inj refused))
        (fun wrong => holds wrong.1)
  refused_kept := by
    intro buffer refused
    by_cases holds : whole
    · rw [unsized holds buffer (refused.resolve_left (not_not.mpr holds))]
    · rw [uncounted holds buffer]
  filled := by
    intro buffer holds inside sized
    obtain ⟨through, complete⟩ := full holds inside
    rw [same holds buffer sized, alloc holds, result, through]
    exact ⟨rfl, complete, rfl⟩
  overwritten := by
    intro buffer other holds _ sized otherSized
    rw [same holds buffer sized, same holds other otherSized]

end Filling

variable [Scalar α]

/-- A buffer of the right size is painted over from end to end. -/
theorem FlatNormals.fill_of_sizes {positions buffer : Array (Vector3 α)}
    (whole : positions.size % 3 = 0) (sized : buffer.size = positions.size) :
    fill positions buffer =
      { buffer := (listed (Triangle.cut positions.toList)).toArray } := by
  have fits : buffer.toList.length = 3 * (Triangle.cut positions.toList).length := by
    rw [Triangle.length_cut, Array.length_toList, Array.length_toList, sized]
    omega
  simp [fill, whole, sized, paint_eq_listed _ _ fits]

/-- Flat normals are all or nothing. -/
theorem FlatNormals.allOrNothing (positions : Array (Vector3 α)) :
    Filling.AllOrNothing (fill positions) (positions.size % 3 = 0) True
      (.positionCount .flatNormals) .flatNormals positions.size (ofPositions positions) := by
  apply Filling.allOrNothing_of_outcomes (fill positions (Array.replicate positions.size 0))
  case argument => rfl
  case counted => rintro _ _ ⟨⟩
  case uncounted =>
    intro partialTriangle buffer
    simp [fill, partialTriangle]
  case unsized =>
    intro whole buffer unsized
    simp [fill, whole, unsized]
  case same =>
    intro whole buffer sized
    rw [fill_of_sizes whole sized, fill_of_sizes whole Array.size_replicate]
  case unrefused =>
    intro whole
    rw [fill_of_sizes whole Array.size_replicate]
    rintro _ ⟨⟩
  case full =>
    intro whole _
    rw [fill_of_sizes whole Array.size_replicate]
    refine ⟨rfl, ?_⟩
    rw [List.size_toArray, length_listed, Triangle.length_cut, Array.length_toList]
    omega
  case alloc => exact fun _ => rfl

namespace SmoothNormals

variable {indices : IndexBuffer} {positions buffer : Array (Vector3 α)}

/-- What is left of a buffer of the right size is decided by the sums alone: clearing makes
it a new one. -/
theorem fill_of_sizes (whole : indices.length % 3 = 0) (sized : buffer.size = positions.size) :
    fill indices positions buffer =
      fill indices positions (Array.replicate positions.size 0) := by
  have cleared : buffer.map (fun _ => (0 : Vector3 α)) = Array.replicate positions.size 0 := by
    rw [Array.map_const', sized]
  simp [fill, whole, sized, cleared]

/-- After the checks, filling can only fail because a vertex is missing. -/
theorem failureClass_of_fill {failure : MeshError} (whole : indices.length % 3 = 0)
    (failed : (fill indices positions (Array.replicate positions.size 0)).failure? =
      some failure) : failure.failureClass = .bounds := by
  have abandoned : ofIndices indices positions = .error failure := by
    rw [ofIndices, Filling.result, failed]
  rw [ofIndices_eq_overIndices] at abandoned
  rcases overIndices_eq_error_iff.mp abandoned with ⟨partialTriangle, _⟩ | ⟨_, vertex, _, rfl⟩
  · exact absurd whole partialTriangle
  · rfl

/-- Smooth normals are all or nothing. -/
theorem allOrNothing (indices : IndexBuffer) (positions : Array (Vector3 α)) :
    Filling.AllOrNothing (fill indices positions) (indices.length % 3 = 0)
      (∀ vertex ∈ indices.vertices, vertex < positions.size)
      (.indexCount .smoothNormals) .smoothNormals positions.size
      (ofIndices indices positions) := by
  apply Filling.allOrNothing_of_outcomes
    (fill indices positions (Array.replicate positions.size 0))
  case argument => rfl
  case counted => rintro _ _ ⟨⟩
  case uncounted =>
    intro partialTriangle buffer
    simp [fill, partialTriangle]
  case unsized =>
    intro whole buffer unsized
    simp [fill, whole, unsized]
  case same => exact fun whole buffer sized => fill_of_sizes whole sized
  case unrefused => exact fun whole failure failed => failureClass_of_fill whole failed
  case full =>
    intro whole inRange
    have accepted := ofIndices_eq_ok_iff.mpr ⟨whole, inRange, rfl⟩
    rw [ofIndices, Filling.result] at accepted
    split at accepted
    next through =>
      refine ⟨through, ?_⟩
      rw [Except.ok.inj accepted]
      simp
    next => cases accepted
  case alloc => exact fun _ => rfl

end SmoothNormals

/-- Filling a buffer is all or nothing, for flat and for smooth normals. A call whose
positions or indices form no whole triangles is refused for that, and otherwise one whose
buffer has not one entry per position is refused for that; then no entry has changed. All
other calls, for smooth normals those without a missing vertex, go through and leave the
list that the allocating form returns, whatever the entries were before. -/
theorem filling_is_all_or_nothing (indices : IndexBuffer) (positions : Array (Vector3 α)) :
    Filling.AllOrNothing (FlatNormals.fill positions) (positions.size % 3 = 0) True
        (.positionCount .flatNormals) .flatNormals positions.size
        (FlatNormals.ofPositions positions) ∧
      Filling.AllOrNothing (SmoothNormals.fill indices positions) (indices.length % 3 = 0)
        (∀ vertex ∈ indices.vertices, vertex < positions.size)
        (.indexCount .smoothNormals) .smoothNormals positions.size
        (SmoothNormals.ofIndices indices positions) :=
  ⟨FlatNormals.allOrNothing positions, SmoothNormals.allOrNothing indices positions⟩

/-- For the three positions of one triangle a buffer of four entries is refused, and stays as
it was. One of three is filled with the normal of the triangle. -/
example :
    let positions : Array (Vector3 Float32) := #[⟨0, 0, 0⟩, ⟨1, 0, 0⟩, ⟨0, 1, 0⟩]
    let old : Vector3 Float32 := ⟨1, 2, 3⟩
    (FlatNormals.fill positions (Array.replicate 4 old)).failure? =
        some (.outputSize .flatNormals 3 4) ∧
      (FlatNormals.fill positions (Array.replicate 4 old)).buffer.map Vector3.key =
        Array.replicate 4 old.key ∧
      (FlatNormals.fill positions (Array.replicate 3 old)).buffer.map Vector3.key =
        Array.replicate 3 ⟨0, 0, 0x3f800000⟩ := by
  decide +kernel

end RenderAssets
