import RenderAssets.Spirv.Relocation
import RenderAssets.Proofs.Spirv.ScannedInterfaces

/-!
# Which modules are separated

Separation is applied to a module or refused, and the instructions of the module
decide which. They are read in one pass, with no regard to how the scan searches
for them: whatever order the sections stand in and wherever the module breaks off,
the verdict is a condition on the plain list of instructions and on whether
reading it met a truncation. A refused module is returned as it was.
-/

namespace RenderAssets.Spirv

/-- An entry point of a stage. -/
def NamesStage (words : List UInt32) (stage : Stage) (instruction : Instruction) : Prop :=
  instruction.hasOpcode Opcode.entryPoint = true ∧
    instruction.word? words 1 = some stage.executionModel

/-- What the instructions of a module must be for its outputs to be separated. Each
entry point reaches as far as its text. Both stages have an entry point, and the
first of each has interface ids behind its text. A variable behind the last entry
point and the last decoration has a storage class, unless the module is truncated:
then no variable is looked at. -/
structure Separable (words : List UInt32) (instructions : List Instruction)
    (truncated : Bool) : Prop where
  longEntryPoints : ∀ instruction ∈ instructions,
    instruction.hasOpcode Opcode.entryPoint = true → 4 ≤ instruction.wordCount
  bothStages : ∀ stage, ∃ instruction ∈ instructions, NamesStage words stage instruction
  interfaces : ∀ stage before first later, instructions = before ++ first :: later →
    NamesStage words stage first → (∀ earlier ∈ before, ¬ NamesStage words stage earlier) →
      first.HasInterface words
  longVariables : truncated = true ∨
    ∀ before declared later, instructions = before ++ declared :: later →
      declared.hasOpcode Opcode.declareVariable = true →
      (∀ behind ∈ later, behind.hasOpcode Opcode.entryPoint = false ∧
        behind.hasOpcode Opcode.decorate = false) → 4 ≤ declared.wordCount

section Module

variable {words : List UInt32}

/-- The first entry point of a stage, by what stands before it. -/
theorem entryPoint?_eq_some_iff (stage : Stage) (first : Instruction) :
    entryPoint? words stage = some first ↔
      ∃ before later, (Listing.ofWords words).instructions = before ++ first :: later ∧
        NamesStage words stage first ∧ ∀ earlier ∈ before, ¬ NamesStage words stage earlier := by
  simp only [entryPoint?, List.find?_eq_some_iff_append, NamesStage, Bool.and_eq_true, beq_iff_eq,
    Bool.not_eq_true', Bool.and_eq_false_imp, beq_eq_false_iff_ne, not_and, ne_eq]
  constructor
  · rintro ⟨names, before, later, split, none⟩
    exact ⟨before, later, split, names, none⟩
  · rintro ⟨before, later, split, names, none⟩
    exact ⟨names, before, later, split, none⟩

/-- A stage has interface ids exactly when its first entry point leaves some. -/
theorem interfaceOf_ne_nil_iff (stage : Stage) :
    interfaceOf words stage ≠ [] ↔
      ∃ first, entryPoint? words stage = some first ∧ first.HasInterface words := by
  rw [interfaceOf]
  cases named : entryPoint? words stage with
  | none => simp
  | some first =>
    obtain ⟨found, present, _⟩ :=
      (stands_of_mem (List.mem_of_find?_eq_some named)).1.present
    simp only [present, Option.getD_some, Option.some.injEq, exists_eq_left',
      hasInterface_iff present]

/-- Both stages have interface ids exactly when both have an entry point and the first
one of each leaves some. -/
theorem interfaces_iff :
    (∀ stage, interfaceOf words stage ≠ []) ↔
      (∀ stage, ∃ instruction ∈ (Listing.ofWords words).instructions,
        NamesStage words stage instruction) ∧
      ∀ stage before first later, (Listing.ofWords words).instructions = before ++ first :: later →
        NamesStage words stage first → (∀ earlier ∈ before, ¬ NamesStage words stage earlier) →
          first.HasInterface words := by
  constructor
  · intro interfaces
    constructor
    · intro stage
      obtain ⟨first, named, _⟩ := (interfaceOf_ne_nil_iff stage).mp (interfaces stage)
      obtain ⟨_, _, _, names, _⟩ := (entryPoint?_eq_some_iff stage first).mp named
      exact ⟨first, List.mem_of_find?_eq_some named, names⟩
    · intro stage before first later split names none
      obtain ⟨other, named, follows⟩ := (interfaceOf_ne_nil_iff stage).mp (interfaces stage)
      have same := (entryPoint?_eq_some_iff stage first).mpr ⟨before, later, split, names, none⟩
      obtain rfl := Option.some.inj (named.symm.trans same)
      exact follows
  · rintro ⟨bothStages, interfaces⟩ stage
    obtain ⟨instruction, member, names⟩ := bothStages stage
    have present : (entryPoint? words stage).isSome = true := by
      apply List.find?_isSome.mpr
      exact ⟨instruction, member, by simp [names.1, names.2]⟩
    obtain ⟨first, named⟩ := Option.isSome_iff_exists.mp present
    obtain ⟨before, later, split, firstNames, none⟩ :=
      (entryPoint?_eq_some_iff stage first).mp named
    exact (interfaceOf_ne_nil_iff stage).mpr
      ⟨first, named, interfaces stage before first later split firstNames none⟩

/-- The variables that are scanned are long enough exactly when the module is truncated
or every variable is with neither an entry point nor a decoration behind it. -/
theorem longVariables_iff :
    (∀ instruction ∈ (Listing.ofWords words).declaredVariables, 4 ≤ instruction.wordCount) ↔
      (Listing.ofWords words).truncated = true ∨
        ∀ before declared later,
          (Listing.ofWords words).instructions = before ++ declared :: later →
          declared.hasOpcode Opcode.declareVariable = true →
          (∀ behind ∈ later, behind.hasOpcode Opcode.entryPoint = false ∧
            behind.hasOpcode Opcode.decorate = false) → 4 ≤ declared.wordCount := by
  constructor
  · intro longVariables
    by_cases broken : (Listing.ofWords words).truncated = true
    · exact Or.inl broken
    · right
      intro before declared later split declares none
      apply longVariables
      apply Listing.mem_declaredVariables_iff.mpr
      refine ⟨Bool.eq_false_iff.mpr broken,
        mem_afterLast_iff.mpr ⟨before, later, split, ?_, ?_⟩, declares⟩
      · rw [Instruction.hasOpcode_of_ne declares (by decide),
          Instruction.hasOpcode_of_ne declares (by decide), Bool.or_self]
      · intro behind member
        simp only [none behind member, Bool.or_self]
  · intro verdict instruction member
    obtain ⟨sound, after, declares⟩ := Listing.mem_declaredVariables_iff.mp member
    rcases verdict with broken | long
    · exact absurd broken (Bool.eq_false_iff.mp sound)
    · obtain ⟨before, later, split, _, none⟩ := mem_afterLast_iff.mp after
      refine long before instruction later split declares ?_
      intro behind follows
      simpa only [Bool.or_eq_false_iff] using none behind follows

/-- The interfaces of a module can be scanned exactly when its instructions are
separable: the two agree condition by condition. -/
theorem scannable_iff_separable :
    Scannable words ↔ Separable words (Listing.ofWords words).instructions
      (Listing.ofWords words).truncated := by
  constructor
  · rintro ⟨longEntryPoints, interfaces, longVariables⟩
    obtain ⟨bothStages, follow⟩ := interfaces_iff.mp interfaces
    refine ⟨?_, bothStages, follow, longVariables_iff.mp longVariables⟩
    intro instruction member opens
    exact longEntryPoints instruction (List.mem_filter.mpr ⟨member, opens⟩)
  · rintro ⟨longEntryPoints, bothStages, follow, longVariables⟩
    refine ⟨?_, interfaces_iff.mpr ⟨bothStages, follow⟩, longVariables_iff.mpr longVariables⟩
    intro instruction member
    obtain ⟨listed, opens⟩ := List.mem_filter.mp member
    exact longEntryPoints instruction listed opens

/-- Separation is applied where the interfaces can be scanned, and changes nothing
elsewhere. -/
theorem applied_iff_scannable :
    ((separateOutputs words).applied = true ↔ Scannable words) ∧
      ((separateOutputs words).applied = false → (separateOutputs words).words = words) := by
  rw [separateOutputs]
  cases scanned : StageInterfaces.scan? words with
  | none =>
    have refused : ¬ Scannable words := by
      intro scannable
      have accepted := (scan?_eq_some_iff (.ofListed words)).mpr ⟨scannable, rfl⟩
      rw [scanned] at accepted
      exact absurd accepted (Option.some_ne_none _).symm
    simp only [Bool.false_eq_true, refused, implies_true, and_self]
  | some interfaces =>
    have scannable := ((scan?_eq_some_iff interfaces).mp scanned).1
    simp only [scannable, Bool.true_eq_false, false_implies, and_self]

/-- Separation is applied exactly to the modules whose instructions, read one after
the other from the start until there is none, are separable. Any other module is
returned unchanged, and the answer says so.

Reading everything yields the listing and remembers its truncation; the listing
decides whether the interfaces can be scanned. -/
theorem applied_iff_separable (words : List UInt32) :
    ((separateOutputs words).applied = true ↔
        Separable words (Cursor.start words).readAll.1
          (Cursor.start words).readAll.2.truncated) ∧
      ((separateOutputs words).applied = false → (separateOutputs words).words = words) := by
  have steps := Cursor.readAll_eq_listing (.start words) (Cursor.start_sound words).inside
  have remembered : (Cursor.start words).finished.truncated =
      (Listing.ofWords words).truncated := by
    rw [Cursor.finished]
    change (if (Listing.ofWords words).truncated = true then _ else _ : Cursor).truncated = _
    by_cases broken : (Listing.ofWords words).truncated = true
    · simp only [broken, ↓reduceIte, Cursor.exhaust]
    · simp only [broken, Bool.false_eq_true, ↓reduceIte, Cursor.start]
  rw [steps, remembered]
  exact ⟨applied_iff_scannable.1.trans scannable_iff_separable, applied_iff_scannable.2⟩

end Module

end RenderAssets.Spirv
