import RenderAssets.Proofs.Spirv.CheckedScan
import RenderAssets.Proofs.Spirv.OutputSeparation

/-!
# A separation whose accesses are checked

The separation once more, on top of the checked scan. Locations are read and written
by index into the words of the module, at the places the scan has recorded.

Those places are behind the first word of decorations that stand in the module, so
all of them are within the words. Separating never changes how many words there are,
so they stay within. With the scan having no fault, the separation has none either,
and it gives its answer on every list of words.
-/

namespace RenderAssets.Spirv

namespace Checked

/-- The first of some places that holds a location. Places are read one after the
other, up to that one. -/
def firstHolding (words : List UInt32) (location : UInt32) :
    List Nat → Except Fault (Option Nat)
  | [] => .ok none
  | place :: rest => do
    let held ← entryAt words place
    if held = location then return some place else firstHolding words location rest

/-- Move the first of some places that holds a location to another one. -/
def moveFirst (words : List UInt32) (places : List Nat) (location fresh : UInt32) :
    Except Fault (List UInt32) := do
  match ← firstHolding words location places with
  | some place => replaceAt words place fresh
  | none => return words

/-- Move one vertex output if it shares its location with a fragment output, and the
fragment input that reads it. -/
def moveOutput (fragmentOutputs fragmentInputs : List Nat) (relocation : Relocation)
    (vertexOutput : Nat) : Except Fault Relocation := do
  let location ← entryAt relocation.words vertexOutput
  match ← firstHolding relocation.words location fragmentOutputs with
  | none => return relocation
  | some _ =>
    let fresh := relocation.highestLocation + 1
    let inputMoved ← moveFirst relocation.words fragmentInputs location fresh
    let words ← replaceAt inputMoved vertexOutput fresh
    return { words, highestLocation := fresh }

/-- Separate the vertex outputs from the fragment outputs. -/
def separate (words : List UInt32) : Except Fault Separation := do
  match ← scan words with
  | none => return { applied := false, words }
  | some interfaces =>
    let relocation ← (Slot.located outputClass interfaces.vertex).foldlM
      (moveOutput (Slot.located outputClass interfaces.fragment)
        (Slot.located inputClass interfaces.fragment))
      { words, highestLocation := interfaces.highestLocation }
    return { applied := true, words := relocation.words }

/-- Places that are all within the words. -/
def Within (words : List UInt32) (places : List Nat) : Prop :=
  ∀ place ∈ places, place < words.length

section Places

variable {words : List UInt32} {places : List Nat}

/-- Reading places within the words has no fault. -/
theorem firstHolding_eq (within : Within words places) (location : UInt32) :
    firstHolding words location places = .ok (places.find? (Relocation.holds words location)) := by
  induction places with
  | nil => rfl
  | cons place rest inductionHypothesis =>
    have inside := within place List.mem_cons_self
    have present := List.getElem?_eq_getElem inside
    have later := inductionHypothesis fun other member =>
      within other (List.mem_cons_of_mem place member)
    rw [firstHolding, entryAt_eq_ok_iff.mpr present, ok_bind, List.find?_cons, Relocation.holds,
      present]
    by_cases same : words[place] = location
    · simp only [same, ↓reduceIte, beq_self_eq_true]
      rfl
    · have differs : (some words[place] == some location) = false :=
        beq_false_of_ne fun equal => same (Option.some.inj equal)
      simp only [same, ↓reduceIte, differs, later]

/-- Moving the first place that holds a location has no fault. -/
theorem moveFirst_eq (within : Within words places) (location fresh : UInt32) :
    moveFirst words places location fresh =
      .ok (Relocation.moveFirst words places location fresh) := by
  rw [moveFirst, firstHolding_eq within, ok_bind, Relocation.moveFirst]
  cases found : places.find? (Relocation.holds words location) with
  | none => rfl
  | some place => exact if_pos (within place (List.mem_of_find?_eq_some found))

end Places

section Run

variable {fragmentOutputs fragmentInputs : List Nat} {relocation : Relocation}

/-- Moving one output has no fault while it, the fragment outputs and the fragment
inputs are within the words. -/
theorem moveOutput_eq {vertexOutput : Nat} (inside : vertexOutput < relocation.words.length)
    (outputs : Within relocation.words fragmentOutputs)
    (inputs : Within relocation.words fragmentInputs) :
    moveOutput fragmentOutputs fragmentInputs relocation vertexOutput =
      .ok (Relocation.moveOutput fragmentOutputs fragmentInputs relocation vertexOutput) := by
  have present := List.getElem?_eq_getElem inside
  rw [moveOutput, entryAt_eq_ok_iff.mpr present, ok_bind, firstHolding_eq outputs, ok_bind,
    Relocation.moveOutput, present]
  simp only [← List.isSome_find?]
  cases fragmentOutputs.find? (Relocation.holds relocation.words relocation.words[vertexOutput]) with
  | none => rfl
  | some rival =>
    have still : vertexOutput < (Relocation.moveFirst relocation.words fragmentInputs
        relocation.words[vertexOutput] (relocation.highestLocation + 1)).length := by
      rwa [Relocation.length_moveFirst]
    simp only [moveFirst_eq inputs, ok_bind, replaceAt, still, ↓reduceIte, Option.isSome_some]
    rfl

/-- Moving outputs one after the other has no fault. Induction on the outputs: moving
one keeps the number of words, so what was within them still is. -/
theorem run_eq {vertexOutputs : List Nat} (own : Within relocation.words vertexOutputs)
    (outputs : Within relocation.words fragmentOutputs)
    (inputs : Within relocation.words fragmentInputs) :
    vertexOutputs.foldlM (moveOutput fragmentOutputs fragmentInputs) relocation =
      .ok (vertexOutputs.foldl (Relocation.moveOutput fragmentOutputs fragmentInputs)
        relocation) := by
  induction vertexOutputs generalizing relocation with
  | nil => rfl
  | cons vertexOutput rest inductionHypothesis =>
    have sameLength :=
      Relocation.length_moveOutput fragmentOutputs fragmentInputs relocation vertexOutput
    rw [List.foldlM_cons, moveOutput_eq (own vertexOutput List.mem_cons_self) outputs inputs,
      ok_bind, List.foldl_cons]
    apply inductionHypothesis
    · intro place member
      rw [sameLength]
      exact own place (List.mem_cons_of_mem vertexOutput member)
    · intro place member
      rw [sameLength]
      exact outputs place member
    · intro place member
      rw [sameLength]
      exact inputs place member

end Run

/-- What the scan has located is within the words, in each of the two stages. -/
theorem place_of_scanned {words : List UInt32} {interfaces : StageInterfaces}
    (scanned : StageInterfaces.scan? words = some interfaces) {slot : Slot}
    (member : slot ∈ interfaces.vertex ++ interfaces.fragment) {place : Nat}
    (located : slot.location? = some place) : place < words.length := by
  obtain ⟨_, rfl⟩ := (scan?_eq_some_iff interfaces).mp scanned
  rcases List.mem_append.mp member with ofVertex | ofFragment
  · obtain ⟨_, present, _⟩ := location_of_located ofVertex located
    exact (List.getElem?_eq_some_iff.mp present).1
  · obtain ⟨_, present, _⟩ := location_of_located ofFragment located
    exact (List.getElem?_eq_some_iff.mp present).1

/-- The checked separation has no fault and gives what the separation gives. -/
theorem separate_eq (words : List UInt32) : separate words = .ok (separateOutputs words) := by
  rw [separate, scan_eq, ok_bind, separateOutputs]
  cases scanned : StageInterfaces.scan? words with
  | none => rfl
  | some interfaces =>
    have within (storageClass : UInt32) (slots : List Slot)
        (known : ∀ slot ∈ slots, slot ∈ interfaces.vertex ++ interfaces.fragment) :
        Within words (Slot.located storageClass slots) := by
      intro place member
      obtain ⟨slot, belongs, _, located⟩ := Slot.mem_located_iff.mp member
      exact place_of_scanned scanned (known slot belongs) located
    have ofVertex (storageClass : UInt32) :
        Within words (Slot.located storageClass interfaces.vertex) :=
      within storageClass _ fun _ member => List.mem_append_left interfaces.fragment member
    have ofFragment (storageClass : UInt32) :
        Within words (Slot.located storageClass interfaces.fragment) :=
      within storageClass _ fun _ member => List.mem_append_right interfaces.vertex member
    have run : (Slot.located outputClass interfaces.vertex).foldlM
        (moveOutput (Slot.located outputClass interfaces.fragment)
          (Slot.located inputClass interfaces.fragment))
        { words, highestLocation := interfaces.highestLocation } =
          .ok (Relocation.ofInterfaces interfaces words) :=
      run_eq (ofVertex outputClass) (ofFragment outputClass) (ofFragment inputClass)
    simp only [run, ok_bind]
    rfl

end Checked

namespace Cursor

/-- A search that finds something has moved on. -/
theorem advances_of_found {opcode : UInt32} {cursor advanced : Cursor} {instruction : Instruction}
    (found : cursor.find? opcode = (some instruction, advanced)) :
    cursor.position < advanced.position := by
  have fewer := remaining_find? found
  simp only [remaining, words_find? found] at fewer
  omega

end Cursor

/-- Separating the outputs of a module has no fault, whatever the words are. The same
steps with every access checked, with as many rounds for each loop as there are words
and one more, and with every search required to move on, give the same answer. In
particular every search that finds something moves the cursor on, and every place the
scan has recorded is within the words. -/
theorem separateOutputs_without_fault (words : List UInt32) :
    Checked.separate words = .ok (separateOutputs words) ∧
      (∀ (cursor advanced : Cursor) (opcode : UInt32) (instruction : Instruction),
        cursor.find? opcode = (some instruction, advanced) →
          cursor.position < advanced.position) ∧
      ∀ interfaces, StageInterfaces.scan? words = some interfaces →
        ∀ slot ∈ interfaces.vertex ++ interfaces.fragment, ∀ place,
          slot.location? = some place → place < words.length :=
  ⟨Checked.separate_eq words,
    fun _ _ _ _ found => Cursor.advances_of_found found,
    fun _ scanned _ member _ located => Checked.place_of_scanned scanned member located⟩

/-- The checked separation moves the outputs of the crowded module, and the first of
them is located within its words. -/
theorem crowded_module_separated_without_fault :
    Checked.separate crowdedModule = .ok (separateOutputs crowdedModule) ∧
      (separateOutputs crowdedModule).words ≠ crowdedModule ∧ 23 < crowdedModule.length := by
  obtain ⟨checked, _, recorded⟩ := separateOutputs_without_fault crowdedModule
  have scanned : StageInterfaces.scan? crowdedModule = some (.ofListed crowdedModule) :=
    (scan?_eq_some_iff _).mpr ⟨by decide, rfl⟩
  refine ⟨checked, ?_, recorded _ scanned _ List.mem_cons_self 23 (by decide)⟩
  rw [(of_applied (applied_iff_scannable.1.mpr (by decide))).2]
  decide

end RenderAssets.Spirv
