import Mathlib.Data.List.Induction
import RenderAssets.Mesh.Edit
import RenderAssets.Proofs.Normals.UnrolledCorners
import RenderAssets.Proofs.Normals.VertexSums
import RenderAssets.Proofs.Shape.CylinderLayout

/-!
# Meshes built by runs of edits

Normals have one entry for every position, with one exception: a list of any length is
taken as normals if it is given. It stays in place until the mesh is replaced or its
normals are set again, and nothing else does that. In particular, asking for computed
normals does not if they are refused.

Positions change only where the mesh is replaced. Normals are computed exactly for whole
triangles that name no missing vertex, flat ones moreover only without indices. Nothing
but the normals changes then, and the triangles of the mesh use up its indices, or its
vertices if it has no indices.
-/

namespace RenderAssets

variable {α : Type}

/-- An edit puts another mesh in place of the one at hand. -/
def MeshEdit.Replaces : MeshEdit α → Prop
  | .clear | .positions _ | .cube _ | .cylinder _ _ _ | .sphere _ _ _ => True
  | .normals _ | .indices _ | .label _ | .flatNormals | .smoothNormals => False

namespace TriangleMesh

section Computed

/-- The corners of triangles that a mesh lists: its indices, or without any its vertices. -/
def cornerCount (mesh : TriangleMesh α) : Nat :=
  match mesh.indices? with
  | some indices => indices.length
  | none => mesh.vertexCount

/-- Whole triangles use up the corners. -/
theorem triangleCount_of_whole {mesh : TriangleMesh α} (whole : mesh.cornerCount % 3 = 0) :
    mesh.triangleCount * 3 = mesh.cornerCount := by
  rw [triangleCount, isIndexed, indexCount]
  rw [cornerCount] at whole ⊢
  cases stored : mesh.indices? with
  | some indices =>
    simp only [stored, Option.isSome_some, ↓reduceIte] at whole ⊢
    omega
  | none =>
    simp only [stored, Option.isSome_none, Bool.false_eq_true, ↓reduceIte] at whole ⊢
    omega

variable [Scalar α] {mesh computed : TriangleMesh α}

/-- Without indices the smooth normals are the flat ones. -/
theorem withFlatNormals_of_unindexed (unindexed : mesh.indices? = none) :
    mesh.withFlatNormals = mesh.withSmoothNormals := by
  rw [withFlatNormals, withSmoothNormals, isIndexed, smoothNormals, unindexed]
  rfl

/-- Smooth normals are computed for whole triangles of vertices that are there. -/
theorem smooth_accepted_iff (mesh : TriangleMesh α) :
    (∃ computed, mesh.withSmoothNormals = .ok computed) ↔
      mesh.cornerCount % 3 = 0 ∧ ∀ indices, mesh.indices? = some indices →
        ∀ vertex ∈ indices.vertices, vertex < mesh.vertexCount := by
  have accepted : (∃ computed, mesh.withSmoothNormals = .ok computed) ↔
      ∃ normals, mesh.smoothNormals = .ok normals := by
    rw [withSmoothNormals]
    cases mesh.smoothNormals <;> simp
  rw [accepted, smoothNormals, cornerCount]
  cases mesh.indices? with
  | some indices => simp [SmoothNormals.ofIndices_eq_ok_iff, vertexCount]
  | none => simp [FlatNormals.ofPositions_eq_ok_iff, vertexCount]

/-- Computed normals go into the mesh one for every position. -/
theorem of_withSmoothNormals (accepted : mesh.withSmoothNormals = .ok computed) :
    ∃ normals, normals.size = mesh.positions.size ∧ computed = mesh.withNormals normals := by
  rw [withSmoothNormals] at accepted
  cases outcome : mesh.smoothNormals with
  | error failure => simp [outcome] at accepted
  | ok normals =>
    rw [outcome] at accepted
    refine ⟨normals, ?_, (Except.ok.inj accepted).symm⟩
    rw [smoothNormals] at outcome
    cases stored : mesh.indices? with
    | some indices =>
      rw [stored] at outcome
      exact SmoothNormals.size_of_accepted outcome
    | none =>
      rw [stored] at outcome
      exact FlatNormals.size_of_accepted outcome

/-- What computing normals of a mesh comes to. -/
structure Computes (mesh : TriangleMesh α) : Prop where
  flat_refused_iff : (∃ failure, mesh.withFlatNormals = .error failure) ↔
    mesh.isIndexed = true ∨ mesh.vertexCount % 3 ≠ 0
  smooth_refused_iff : (∃ failure, mesh.withSmoothNormals = .error failure) ↔
    (∃ indices, mesh.indices? = some indices ∧
      (indices.length % 3 ≠ 0 ∨ ∃ vertex ∈ indices.vertices, mesh.vertexCount ≤ vertex)) ∨
    mesh.indices? = none ∧ mesh.vertexCount % 3 ≠ 0
  /-- Whichever normals are computed, only the normals are others then, one for every position,
  and whole triangles use up the corners. -/
  completed : ∀ computed, mesh.withFlatNormals = .ok computed ∨
      mesh.withSmoothNormals = .ok computed →
    (∃ normals, normals.size = mesh.positions.size ∧
        computed = { mesh with normals? := some normals }) ∧
      computed.triangleCount * 3 = computed.cornerCount

/-- Either an operation fails or it has a result. -/
theorem exists_error_iff {ε ρ : Type} (outcome : Except ε ρ) :
    (∃ failure, outcome = .error failure) ↔ ¬ ∃ result, outcome = .ok result := by
  cases outcome <;> simp

/-- Flat normals are computed where smooth ones are, except that there be no indices. -/
theorem withFlatNormals_eq_ok_iff :
    mesh.withFlatNormals = .ok computed ↔
      mesh.indices? = none ∧ mesh.withSmoothNormals = .ok computed := by
  cases stored : mesh.indices? with
  | some indices => simp [withFlatNormals, isIndexed, stored]
  | none => simp [withFlatNormals_of_unindexed stored]

/-- Every mesh has its normals computed like that. -/
theorem computes (mesh : TriangleMesh α) : mesh.Computes where
  flat_refused_iff := by
    rw [exists_error_iff]
    simp only [withFlatNormals_eq_ok_iff, exists_and_left, smooth_accepted_iff, cornerCount,
      isIndexed]
    cases mesh.indices? <;> simp
  smooth_refused_iff := by
    rw [exists_error_iff, smooth_accepted_iff, not_and_or, cornerCount]
    cases mesh.indices? <;> simp
  completed := by
    intro computed accepted
    have smooth : mesh.withSmoothNormals = .ok computed :=
      accepted.elim (fun flat => (withFlatNormals_eq_ok_iff.mp flat).2) id
    obtain ⟨normals, size, rfl⟩ := of_withSmoothNormals smooth
    have whole := ((smooth_accepted_iff mesh).mp ⟨_, smooth⟩).1
    exact ⟨⟨normals, size, rfl⟩, triangleCount_of_whole whole⟩

end Computed

section Runs

variable [Trigonometric α]

/-- The normals, if there are any, are one for every position. -/
def NormalsFit (mesh : TriangleMesh α) : Prop :=
  ∀ normals, mesh.normals? = some normals → normals.size = mesh.positions.size

/-- An edit sets the normals of a mesh. Computed ones are set if they are not refused. -/
def SetsNormals (mesh : TriangleMesh α) : MeshEdit α → Prop
  | .normals _ => True
  | .flatNormals => ∃ computed, mesh.withFlatNormals = .ok computed
  | .smoothNormals => ∃ computed, mesh.withSmoothNormals = .ok computed
  | _ => False

/-- No edit of a stretch replaces the mesh or sets its normals. -/
def KeepsNormals (mesh : TriangleMesh α) : List (MeshEdit α) → Prop
  | [] => True
  | step :: rest =>
    ¬ step.Replaces ∧ ¬ mesh.SetsNormals step ∧ (mesh.edit step).KeepsNormals rest

/-- A run in two parts is the second one after the first. -/
theorem editAll_append (mesh : TriangleMesh α) (first second : List (MeshEdit α)) :
    mesh.editAll (first ++ second) = (mesh.editAll first).editAll second :=
  List.foldl_append

/-- One more edit keeps the normals if it does so where it is applied. -/
theorem keepsNormals_concat {mesh : TriangleMesh α} {stretch : List (MeshEdit α)}
    {step : MeshEdit α} (kept : mesh.KeepsNormals stretch) (stays : ¬ step.Replaces)
    (unset : ¬ (mesh.editAll stretch).SetsNormals step) :
    mesh.KeepsNormals (stretch ++ [step]) := by
  induction stretch generalizing mesh with
  | nil => exact ⟨stays, unset, trivial⟩
  | cons first rest inductionHypothesis =>
    obtain ⟨firstStays, firstUnset, later⟩ := kept
    exact ⟨firstStays, firstUnset, inductionHypothesis later unset⟩

section Step

variable (mesh : TriangleMesh α) {step : MeshEdit α}

/-- What replaces a mesh has normals that fit, or none. -/
theorem normalsFit_of_replaces (replaces : step.Replaces) : (mesh.edit step).NormalsFit := by
  intro normals present
  cases step with
  | clear => exact nomatch present
  | positions positions => exact nomatch present
  | cube halfExtent =>
    obtain rfl := Option.some.inj present
    rfl
  | cylinder radius halfLength segments =>
    obtain rfl := Option.some.inj present
    exact (Shape.Cylinder.length_normals _).trans
      (Shape.Cylinder.length_positions radius halfLength _).symm
  | sphere radius segments rings =>
    obtain rfl := Option.some.inj present
    exact (List.length_map _).symm
  | normals | indices | label | flatNormals | smoothNormals => exact absurd replaces id

/-- Asking for computed normals sets one for every position and changes nothing else, or is
refused. -/
theorem edit_computing (computing : step = .flatNormals ∨ step = .smoothNormals) :
    (mesh.SetsNormals step ∧ ∃ normals, normals.size = mesh.positions.size ∧
        mesh.edit step = mesh.withNormals normals) ∨
      ¬ mesh.SetsNormals step ∧ mesh.edit step = mesh := by
  have outcome : (mesh.edited step = mesh.withFlatNormals ∨
      mesh.edited step = mesh.withSmoothNormals) ∧
      (mesh.SetsNormals step ↔ ∃ computed, mesh.edited step = .ok computed) := by
    rcases computing with rfl | rfl
    · exact ⟨.inl rfl, .rfl⟩
    · exact ⟨.inr rfl, .rfl⟩
  rw [outcome.2, edit]
  cases edited : mesh.edited step with
  | error failure => exact .inr ⟨by simp, rfl⟩
  | ok computed =>
    have accepted : mesh.withFlatNormals = .ok computed ∨ mesh.withSmoothNormals = .ok computed :=
      outcome.1.imp (fun flat => flat.symm.trans edited) (fun smooth => smooth.symm.trans edited)
    exact .inl ⟨⟨computed, rfl⟩, ((computes mesh).completed computed accepted).1⟩

/-- An edit that does not replace the mesh keeps its positions. It sets the normals to those
that it is given or to some that fit, or it keeps them too. -/
theorem edit_cases (stays : ¬ step.Replaces) :
    (mesh.edit step).positions = mesh.positions ∧
      ((∃ given, step = .normals given) ∨ (mesh.edit step).NormalsFit ∨
        ¬ mesh.SetsNormals step ∧ (mesh.edit step).normals? = mesh.normals?) := by
  have computing (asked : step = .flatNormals ∨ step = .smoothNormals) :
      (mesh.edit step).positions = mesh.positions ∧ ((mesh.edit step).NormalsFit ∨
        ¬ mesh.SetsNormals step ∧ (mesh.edit step).normals? = mesh.normals?) := by
    obtain ⟨_, normals, size, changed⟩ | ⟨unset, same⟩ := edit_computing mesh asked
    · rw [changed]
      refine ⟨rfl, .inl fun present held => ?_⟩
      obtain rfl := Option.some.inj held
      exact size
    · rw [same]
      exact ⟨rfl, .inr ⟨unset, rfl⟩⟩
  cases step with
  | clear | positions | cube | cylinder | sphere => exact absurd trivial stays
  | normals given => exact ⟨rfl, .inl ⟨given, rfl⟩⟩
  | indices | label => exact ⟨rfl, .inr (.inr ⟨id, rfl⟩)⟩
  | flatNormals => exact (computing (.inl rfl)).imp_right .inr
  | smoothNormals => exact (computing (.inr rfl)).imp_right .inr

end Step

/-- Where the normals come from that a mesh has after a run: they fit, or a list of another
length was given, and nothing replaced the mesh or set its normals from there on. -/
def NormalsAccounted (run : List (MeshEdit α)) : Prop :=
  ((∅ : TriangleMesh α).editAll run).NormalsFit ∨
    ∃ before given after, run = before ++ .normals given :: after ∧
      ((∅ : TriangleMesh α).editAll run).normals? = some given ∧
      given.size ≠ ((∅ : TriangleMesh α).editAll run).positions.size ∧
      ((∅ : TriangleMesh α).editAll (before ++ [.normals given])).KeepsNormals after

/-- The normals after any run are accounted for. Induction on the run from its end: the last
edit replaces the mesh, sets its normals, or leaves the account as it is. -/
theorem normalsAccounted (run : List (MeshEdit α)) : NormalsAccounted run := by
  induction run using List.reverseRecOn with
  | nil => exact .inl fun normals none => nomatch none
  | append_singleton run step inductionHypothesis =>
    have last : (∅ : TriangleMesh α).editAll (run ++ [step]) = (editAll ∅ run).edit step :=
      editAll_append ∅ run [step]
    by_cases replaces : step.Replaces
    · left
      rw [last]
      exact normalsFit_of_replaces _ replaces
    obtain ⟨positions, ⟨given, rfl⟩ | fit | ⟨unset, kept⟩⟩ :=
      edit_cases (editAll ∅ run) replaces
    · by_cases fits : given.size = (editAll ∅ run).positions.size
      · left
        rw [last]
        intro present held
        obtain rfl := Option.some.inj held
        exact fits
      · exact .inr ⟨run, given, [], rfl, by rw [last]; rfl, by rwa [last, positions], trivial⟩
    · exact .inl (last ▸ fit)
    · rcases inductionHypothesis with fit | ⟨before, given, after, rfl, held, unlike, quiet⟩
      · left
        rw [last]
        intro normals held
        rw [positions]
        exact fit normals (kept ▸ held)
      · refine .inr ⟨before, given, after ++ [step], by simp, by rwa [last, kept],
          by rwa [last, positions], ?_⟩
        apply keepsNormals_concat quiet replaces
        rwa [← editAll_append, List.append_assoc]

/-- What an edit does to a mesh. -/
structure Effect (before : TriangleMesh α) (step : MeshEdit α) (after : TriangleMesh α) :
    Prop where
  /-- An edit that does not go through leaves the mesh as it was. -/
  refused : ∀ failure, before.edited step = .error failure → after = before
  /-- Positions change only where the mesh is replaced. -/
  positions_eq : ¬ step.Replaces → after.positions = before.positions
  /-- Asking for computed normals changes nothing but the normals. -/
  computed : step = .flatNormals ∨ step = .smoothNormals →
    ∃ normals?, after = { before with normals? }

/-- Every edit has no other effect. -/
theorem effect_edit (mesh : TriangleMesh α) (step : MeshEdit α) :
    mesh.Effect step (mesh.edit step) where
  refused := by
    intro failure refused
    rw [edit, refused]
  positions_eq := fun stays => (edit_cases mesh stays).1
  computed := by
    intro asked
    obtain ⟨_, normals, _, changed⟩ | ⟨_, same⟩ := edit_computing mesh asked
    · exact ⟨some normals, changed⟩
    · exact ⟨mesh.normals?, same⟩

/-- After any run of edits, starting from a mesh with nothing in it, the normals are absent,
or one for every position, or a list of another length that was given and not set again
since. Normals are computed for the mesh exactly where its triangles allow it. And one more
edit keeps the positions unless it replaces the mesh, and everything but the normals if it
asks for computed ones. -/
theorem built_meshes_account_for_normals (run : List (MeshEdit α)) :
    NormalsAccounted run ∧ ((∅ : TriangleMesh α).editAll run).Computes ∧
      ∀ step, ((∅ : TriangleMesh α).editAll run).Effect step
        ((∅ : TriangleMesh α).editAll (run ++ [step])) := by
  refine ⟨normalsAccounted run, computes _, fun step => ?_⟩
  rw [editAll_append]
  exact effect_edit _ step

end Runs

/-- Four positions get one normal and a label, and are then refused flat normals. -/
def underfilledRun : List (MeshEdit Float32) :=
  [.positions (Array.replicate 4 0), .normals #[0], .label "tile", .flatNormals]

/-- The one normal is still there. It was given, and neither the label nor the refusal has
changed that. -/
theorem underfilledRun_keeps_given_normals :
    ∃ before given after, underfilledRun = before ++ .normals given :: after ∧
      ((∅ : TriangleMesh Float32).editAll underfilledRun).normals? = some given ∧
      given.size = 1 ∧ ((∅ : TriangleMesh Float32).editAll underfilledRun).positions.size = 4 ∧
      ((∅ : TriangleMesh Float32).editAll (before ++ [.normals given])).KeepsNormals after ∧
      ∃ failure, ((∅ : TriangleMesh Float32).editAll underfilledRun).withFlatNormals =
        .error failure := by
  have held : ((∅ : TriangleMesh Float32).editAll underfilledRun).normals? = some #[0] := rfl
  obtain ⟨fit | ⟨before, given, after, split, stays, _, quiet⟩, computes, _⟩ :=
    built_meshes_account_for_normals underfilledRun
  · exact absurd (fit #[0] held) (by decide)
  · obtain rfl := Option.some.inj (held.symm.trans stays)
    exact ⟨before, _, after, split, held, rfl, rfl, quiet,
      computes.flat_refused_iff.mpr (.inr (by decide))⟩

end TriangleMesh

end RenderAssets
