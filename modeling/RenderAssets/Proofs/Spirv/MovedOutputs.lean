import RenderAssets.Proofs.Spirv.RelocationRun

/-!
# Which outputs a run moves

A run moves the outputs that are in conflict when their turn comes. It takes one
fresh location for each of them, so the highest location counts them while it does
not wrap around. The last of them holds the highest location in the end. A run that
moves no output does nothing at all.

With room for the fresh locations, the outputs that are moved can be told from the
words: they are the ones that hold another location in the end.
-/

namespace RenderAssets.Spirv.Relocation

variable {fragmentOutputs fragmentInputs : List Nat}

/-- Whether some fragment output holds the location of a vertex output. -/
def conflicting (words : List UInt32) (fragmentOutputs : List Nat) (vertexOutput : Nat) : Bool :=
  words[vertexOutput]?.any fun location => fragmentOutputs.any (holds words location)

/-- The outputs that a run moves: those in conflict when they are looked at. -/
def movedOutputs (fragmentOutputs fragmentInputs : List Nat) : Relocation → List Nat → List Nat
  | _, [] => []
  | relocation, output :: rest =>
    let later := movedOutputs fragmentOutputs fragmentInputs
      (moveOutput fragmentOutputs fragmentInputs relocation output) rest
    if conflicting relocation.words fragmentOutputs output then output :: later else later

/-- Only outputs that are looked at are moved. -/
theorem mem_of_mem_movedOutputs {relocation : Relocation} {pending : List Nat} {output : Nat}
    (moved : output ∈ movedOutputs fragmentOutputs fragmentInputs relocation pending) :
    output ∈ pending := by
  induction pending generalizing relocation with
  | nil => exact moved
  | cons first rest inductionHypothesis =>
    rw [movedOutputs] at moved
    split at moved
    · rcases List.mem_cons.mp moved with rfl | later
      · exact List.mem_cons_self
      · exact List.mem_cons_of_mem first (inductionHypothesis later)
    · exact List.mem_cons_of_mem first (inductionHypothesis moved)

/-- The vertex outputs that are moved in a module with these interfaces. -/
def movedOfInterfaces (interfaces : StageInterfaces) (words : List UInt32) : List Nat :=
  movedOutputs (Slot.located outputClass interfaces.fragment)
    (Slot.located inputClass interfaces.fragment)
    { words, highestLocation := interfaces.highestLocation }
    (Slot.located outputClass interfaces.vertex)

/-- A vertex output is in conflict when there is a location that it shares. -/
theorem conflicting_iff {words : List UInt32} {vertexOutput : Nat} :
    conflicting words fragmentOutputs vertexOutput = true ↔
      ∃ location, Conflicts words fragmentOutputs vertexOutput location := by
  simp only [conflicting, Option.any_eq_true, List.any_eq_true, Conflicts, holds, beq_iff_eq]

/-- A step does nothing without a conflict, and takes the next location with one. -/
theorem moveOutput_outcomes (fragmentOutputs fragmentInputs : List Nat) (relocation : Relocation)
    (vertexOutput : Nat) :
    (conflicting relocation.words fragmentOutputs vertexOutput = false ∧
        moveOutput fragmentOutputs fragmentInputs relocation vertexOutput = relocation) ∨
      (conflicting relocation.words fragmentOutputs vertexOutput = true ∧
        (moveOutput fragmentOutputs fragmentInputs relocation vertexOutput).highestLocation =
          relocation.highestLocation + 1 ∧
        ∃ location, Moved relocation.words
          (moveOutput fragmentOutputs fragmentInputs relocation vertexOutput).words
          fragmentInputs vertexOutput location (relocation.highestLocation + 1)) := by
  rcases moveOutput_cases fragmentOutputs fragmentInputs relocation vertexOutput with
    ⟨free, same⟩ | ⟨location, shared, next, moved⟩
  · refine Or.inl ⟨Bool.eq_false_iff.mpr ?_, same⟩
    intro conflict
    obtain ⟨location, shared⟩ := conflicting_iff.mp conflict
    exact free location shared
  · exact Or.inr ⟨conflicting_iff.mpr ⟨location, shared⟩, next, location, moved⟩

/-- A step without a conflict does nothing. -/
theorem moveOutput_of_peace (fragmentInputs : List Nat) {relocation : Relocation}
    {vertexOutput : Nat}
    (peace : conflicting relocation.words fragmentOutputs vertexOutput = false) :
    moveOutput fragmentOutputs fragmentInputs relocation vertexOutput = relocation := by
  rcases moveOutput_outcomes fragmentOutputs fragmentInputs relocation vertexOutput with
    ⟨_, same⟩ | ⟨conflict, _⟩
  · exact same
  · exact absurd conflict (Bool.eq_false_iff.mp peace)

/-- A step with a conflict takes the next location and writes it to the output. -/
theorem moveOutput_of_conflict (fragmentInputs : List Nat) {relocation : Relocation}
    {vertexOutput : Nat}
    (conflict : conflicting relocation.words fragmentOutputs vertexOutput = true) :
    (moveOutput fragmentOutputs fragmentInputs relocation vertexOutput).highestLocation =
        relocation.highestLocation + 1 ∧
      (moveOutput fragmentOutputs fragmentInputs relocation vertexOutput).words[vertexOutput]? =
        some (relocation.highestLocation + 1) := by
  rcases moveOutput_outcomes fragmentOutputs fragmentInputs relocation vertexOutput with
    ⟨peace, _⟩ | ⟨_, next, _, moved⟩
  · exact absurd conflict (Bool.eq_false_iff.mp peace)
  · refine ⟨next, ?_⟩
    rw [moved vertexOutput, if_pos (Or.inl rfl)]

/-- With room for the locations that a run takes, a conflict at its head takes one of
them, and there is room for those of the rest. -/
theorem room_of_conflict {relocation : Relocation} {output : Nat} {rest : List Nat}
    (conflict : conflicting relocation.words fragmentOutputs output = true)
    (room : relocation.highestLocation.toNat +
      (movedOutputs fragmentOutputs fragmentInputs relocation (output :: rest)).length <
        UInt32.size) :
    (moveOutput fragmentOutputs fragmentInputs relocation output).highestLocation.toNat =
        relocation.highestLocation.toNat + 1 ∧
      relocation.highestLocation <
        (moveOutput fragmentOutputs fragmentInputs relocation output).highestLocation ∧
      (moveOutput fragmentOutputs fragmentInputs relocation output).highestLocation.toNat +
        (movedOutputs fragmentOutputs fragmentInputs
          (moveOutput fragmentOutputs fragmentInputs relocation output) rest).length <
        UInt32.size := by
  simp only [movedOutputs, conflict, ↓reduceIte, List.length_cons] at room
  have grown : (moveOutput fragmentOutputs fragmentInputs relocation
      output).highestLocation.toNat = relocation.highestLocation.toNat + 1 := by
    rw [(moveOutput_of_conflict fragmentInputs conflict).1, UInt32.toNat_add, UInt32.toNat_one]
    apply Nat.mod_eq_of_lt
    simp only [UInt32.size] at room
    omega
  exact ⟨grown, UInt32.lt_iff_toNat_lt.mpr (by omega), by omega⟩

/-- A run that moves no output does nothing. -/
theorem run_of_unmoved {relocation : Relocation} {pending : List Nat}
    (unmoved : movedOutputs fragmentOutputs fragmentInputs relocation pending = []) :
    pending.foldl (moveOutput fragmentOutputs fragmentInputs) relocation = relocation := by
  induction pending with
  | nil => rfl
  | cons output rest inductionHypothesis =>
    cases conflict : conflicting relocation.words fragmentOutputs output with
    | true => simp [movedOutputs, conflict] at unmoved
    | false =>
      have stays := moveOutput_of_peace fragmentInputs conflict
      rw [List.foldl_cons, stays]
      apply inductionHypothesis
      simpa only [movedOutputs, conflict, stays, Bool.false_eq_true, ↓reduceIte] using unmoved

/-- No output is moved where none shares a location with a fragment output. -/
theorem unmoved_of_peace {relocation : Relocation} {pending : List Nat}
    (peace : ∀ output ∈ pending,
      conflicting relocation.words fragmentOutputs output = false) :
    movedOutputs fragmentOutputs fragmentInputs relocation pending = [] := by
  induction pending with
  | nil => rfl
  | cons output rest inductionHypothesis =>
    have first := peace output List.mem_cons_self
    have later := inductionHypothesis fun other member =>
      peace other (List.mem_cons_of_mem output member)
    simp only [movedOutputs, first, moveOutput_of_peace fragmentInputs first, later]
    rfl

/-- A run that moves some output leaves the highest location at an output. Induction
on the outputs: the last one to be moved takes the location that stays the highest. -/
theorem highest_held {relocation : Relocation} {pending : List Nat}
    (moved : movedOutputs fragmentOutputs fragmentInputs relocation pending ≠ []) :
    ∃ output ∈ pending,
      (pending.foldl (moveOutput fragmentOutputs fragmentInputs) relocation).words[output]? =
        some (pending.foldl (moveOutput fragmentOutputs fragmentInputs)
          relocation).highestLocation := by
  induction pending generalizing relocation with
  | nil => exact absurd rfl moved
  | cons output rest inductionHypothesis =>
    rw [List.foldl_cons]
    by_cases later : movedOutputs fragmentOutputs fragmentInputs
        (moveOutput fragmentOutputs fragmentInputs relocation output) rest = []
    · have conflict : conflicting relocation.words fragmentOutputs output = true := by
        apply Decidable.byContradiction
        intro peace
        simp [movedOutputs, peace, later] at moved
      obtain ⟨next, written⟩ := moveOutput_of_conflict fragmentInputs conflict
      refine ⟨output, List.mem_cons_self, ?_⟩
      rw [run_of_unmoved later, next, written]
    · obtain ⟨last, member, held⟩ := inductionHypothesis later
      exact ⟨last, List.mem_cons_of_mem output member, held⟩

/-- While there is room for the locations it takes, a run keeps places bounded, and
the highest location grows by one for each output that is moved. -/
theorem bounded_run {places : List Nat} {relocation : Relocation} {pending : List Nat}
    (bounded : Bounded places relocation)
    (room : relocation.highestLocation.toNat +
      (movedOutputs fragmentOutputs fragmentInputs relocation pending).length < UInt32.size) :
    Bounded places (pending.foldl (moveOutput fragmentOutputs fragmentInputs) relocation) ∧
      (pending.foldl (moveOutput fragmentOutputs fragmentInputs)
          relocation).highestLocation.toNat =
        relocation.highestLocation.toNat +
          (movedOutputs fragmentOutputs fragmentInputs relocation pending).length := by
  induction pending generalizing relocation with
  | nil => exact ⟨bounded, rfl⟩
  | cons output rest inductionHypothesis =>
    rw [List.foldl_cons]
    cases conflict : conflicting relocation.words fragmentOutputs output with
    | false =>
      simp only [movedOutputs, conflict, Bool.false_eq_true, ↓reduceIte,
        moveOutput_of_peace fragmentInputs conflict] at room ⊢
      exact inductionHypothesis bounded room
    | true =>
      obtain ⟨grown, _, roomLater⟩ := room_of_conflict conflict room
      simp only [movedOutputs, conflict, ↓reduceIte, List.length_cons] at room ⊢
      have boundedLater :=
        (bounded.step (by omega) fragmentOutputs fragmentInputs output).1
      obtain ⟨boundedEnd, total⟩ := inductionHypothesis boundedLater roomLater
      exact ⟨boundedEnd, by omega⟩

section Changed

variable {relocation : Relocation} {pending : List Nat} {place : Nat}

/-- A place that is neither moved nor a fragment input keeps its word. -/
theorem kept_of_unmoved (apart : place ∉ fragmentInputs)
    (unmoved : place ∉ movedOutputs fragmentOutputs fragmentInputs relocation pending) :
    (pending.foldl (moveOutput fragmentOutputs fragmentInputs) relocation).words[place]? =
      relocation.words[place]? := by
  induction pending generalizing relocation with
  | nil => rfl
  | cons output rest inductionHypothesis =>
    rw [List.foldl_cons]
    rcases moveOutput_outcomes fragmentOutputs fragmentInputs relocation output with
      ⟨peace, same⟩ | ⟨conflict, _, _, moved⟩
    · simp only [movedOutputs, peace, Bool.false_eq_true, ↓reduceIte, same] at unmoved ⊢
      exact inductionHypothesis unmoved
    · simp only [movedOutputs, conflict, ↓reduceIte, List.mem_cons, not_or] at unmoved
      rw [inductionHypothesis unmoved.2, moved.outside apart, if_neg unmoved.1]

/-- While there is room, a run leaves a word as it is or puts a location in its place
that is above the highest one before. -/
theorem kept_or_above (place : Nat)
    (room : relocation.highestLocation.toNat +
      (movedOutputs fragmentOutputs fragmentInputs relocation pending).length < UInt32.size) :
    (pending.foldl (moveOutput fragmentOutputs fragmentInputs) relocation).words[place]? =
        relocation.words[place]? ∨
      ∃ location, (pending.foldl (moveOutput fragmentOutputs fragmentInputs)
          relocation).words[place]? = some location ∧
        relocation.highestLocation < location := by
  induction pending generalizing relocation with
  | nil => exact Or.inl rfl
  | cons output rest inductionHypothesis =>
    rw [List.foldl_cons]
    rcases moveOutput_outcomes fragmentOutputs fragmentInputs relocation output with
      ⟨peace, same⟩ | ⟨conflict, next, _, moved⟩
    · simp only [movedOutputs, peace, Bool.false_eq_true, ↓reduceIte, same] at room ⊢
      exact inductionHypothesis room
    · obtain ⟨_, above, roomLater⟩ := room_of_conflict conflict room
      rcases inductionHypothesis roomLater with kept | ⟨final, held, beyond⟩
      · rw [kept, moved place, ← next]
        split
        · exact Or.inr ⟨_, rfl, above⟩
        · exact Or.inl rfl
      · exact Or.inr ⟨final, held, UInt32.lt_trans above beyond⟩

/-- While there is room, a place that is moved ends above the highest location before.
It may be written again later, but only with a location that is higher still. -/
theorem above_of_moved
    (room : relocation.highestLocation.toNat +
      (movedOutputs fragmentOutputs fragmentInputs relocation pending).length < UInt32.size)
    (moved : place ∈ movedOutputs fragmentOutputs fragmentInputs relocation pending) :
    ∃ location, (pending.foldl (moveOutput fragmentOutputs fragmentInputs)
        relocation).words[place]? = some location ∧
      relocation.highestLocation < location := by
  induction pending generalizing relocation with
  | nil => exact absurd moved List.not_mem_nil
  | cons output rest inductionHypothesis =>
    rw [List.foldl_cons]
    cases conflict : conflicting relocation.words fragmentOutputs output with
    | false =>
      simp only [movedOutputs, conflict, Bool.false_eq_true, ↓reduceIte,
        moveOutput_of_peace fragmentInputs conflict] at room moved ⊢
      exact inductionHypothesis room moved
    | true =>
      obtain ⟨next, written⟩ := moveOutput_of_conflict fragmentInputs conflict
      obtain ⟨_, above, roomLater⟩ := room_of_conflict conflict room
      rw [← next] at written
      simp only [movedOutputs, conflict, ↓reduceIte] at moved
      rcases List.mem_cons.mp moved with rfl | later
      · rcases kept_or_above place roomLater with kept | ⟨final, held, beyond⟩
        · exact ⟨_, kept.trans written, above⟩
        · exact ⟨final, held, UInt32.lt_trans above beyond⟩
      · obtain ⟨final, held, beyond⟩ := inductionHypothesis roomLater later
        exact ⟨final, held, UInt32.lt_trans above beyond⟩

/-- While there is room, the places that are moved are those whose words are others in
the end, among the places that no fragment input has. -/
theorem mem_movedOutputs_iff (bounded : Bounded [place] relocation)
    (apart : place ∉ fragmentInputs)
    (room : relocation.highestLocation.toNat +
      (movedOutputs fragmentOutputs fragmentInputs relocation pending).length < UInt32.size) :
    place ∈ movedOutputs fragmentOutputs fragmentInputs relocation pending ↔
      (pending.foldl (moveOutput fragmentOutputs fragmentInputs) relocation).words[place]? ≠
        relocation.words[place]? := by
  constructor
  · intro moved same
    obtain ⟨location, held, atMost⟩ := bounded place List.mem_cons_self
    obtain ⟨final, heldLater, above⟩ := above_of_moved room moved
    obtain rfl := Option.some.inj (heldLater.symm.trans (same.trans held))
    exact absurd above (UInt32.not_lt.mpr atMost)
  · intro changed
    apply Decidable.byContradiction
    intro unmoved
    exact changed (kept_of_unmoved apart unmoved)

end Changed

end RenderAssets.Spirv.Relocation
