import RenderAssets.Proofs.Spirv.InterfaceFacts
import RenderAssets.Proofs.Spirv.PreservedStructure

/-!
# Separation depends on the facts about interfaces alone

Two orderly modules that say the same about their interfaces are separated alike: both or
neither, and every id ends with the same location in both. It makes no difference what
the headers are, which other instructions there are, and in what order the decorations
and the variables stand.

Places cannot be compared across the two modules, so the run on places is replaced by the
run on ids that it represents. The same facts give the same located ids and the same
allocation to begin with. What is left is one and the same run.
-/

namespace RenderAssets.Spirv

/-- Two modules say the same about their interfaces. -/
structure SameFacts (words : List UInt32) (instructions : List Instruction)
    (otherWords : List UInt32) (otherInstructions : List Instruction) : Prop where
  /-- The entry points are the same, in the same order. -/
  entryPoints : entryPointWords words instructions = entryPointWords otherWords otherInstructions
  /-- The same ids are given the same locations. -/
  locations : ∀ pair, pair ∈ locationPairs words instructions ↔
    pair ∈ locationPairs otherWords otherInstructions
  /-- The same ids are declared in the same storage classes. -/
  declarations : ∀ declaration, declaration ∈ allVariables words instructions ↔
    declaration ∈ allVariables otherWords otherInstructions

/-- The locations of the ids of a module after separation. -/
def Allocation.outcome (words : List UInt32) : Allocation :=
  if (separateOutputs words).applied then final words else initial words

/-- The located ids among the first slots of each id depend on those slots alone. -/
theorem Slot.locatedIds_settled_congr {storageClass : UInt32} {first other : UInt32 → Slot}
    (same : ∀ id, locatedIds storageClass [first id] = locatedIds storageClass [other id])
    (seen ids : List UInt32) :
    locatedIds storageClass (settled first seen ids) =
      locatedIds storageClass (settled other seen ids) := by
  have cons (slot : Slot) (slots : List Slot) : locatedIds storageClass (slot :: slots) =
      locatedIds storageClass [slot] ++ locatedIds storageClass slots := by
    rw [← List.singleton_append, locatedIds, List.filterMap_append]
    rfl
  induction ids generalizing seen with
  | nil => rfl
  | cons id rest inductionHypothesis =>
    rw [settled, settled, cons, cons _ (settled other _ _), inductionHypothesis]
    by_cases repeated : id ∈ seen
    · simp only [repeated, ↓reduceIte]
    · simp only [repeated, ↓reduceIte, same]

/-- An id is among the located ones when it has a place and the storage class. -/
theorem Slot.locatedIds_found (words : List UInt32) (storageClass id : UInt32) :
    locatedIds storageClass [found words id] =
      if (placeOf? words id).isSome = true ∧
          lastClass? (scannedVariables words) id = some storageClass then [id] else [] := by
  rw [locatedIds, List.filterMap_cons, List.filterMap_nil, found, ← placeOf?]
  by_cases classed : lastClass? (scannedVariables words) id = some storageClass
  · cases located : placeOf? words id with
    | none => simp [classed]
    | some place => simp [classed]
  · simp [classed]

/-- Where the same locations are given among others, the highest of them is as high. -/
theorem highest_allLocations_le {words otherWords : List UInt32}
    {instructions otherInstructions : List Instruction}
    (given : ∀ pair ∈ locationPairs words instructions,
      pair ∈ locationPairs otherWords otherInstructions) :
    highest (allLocations words instructions) ≤
      highest (allLocations otherWords otherInstructions) := by
  apply highest_le
  intro decoration member
  obtain ⟨other, known, alike⟩ := List.mem_map.mp (given _ (List.mem_map_of_mem member))
  have same : other.location = decoration.location := congrArg Prod.snd alike
  exact same ▸ location_le_highest known

section Module

variable {words : List UInt32}

/-- After separation the location that an id has in the end stands at its place. -/
theorem Allocation.outcome_location? (words : List UInt32) (id : UInt32) :
    (outcome words).location? id =
      (placeOf? words id).bind ((separateOutputs words).words[·]?) := by
  rw [outcome]
  cases applied : (separateOutputs words).applied with
  | true =>
    rw [(of_applied applied).2]
    exact (ofInterfaces_represents words).locations id
  | false =>
    rw [applied_iff_scannable.2 applied]
    rfl

/-- Separation keeps the location decorations of a module, but for the locations. -/
theorem allLocations_separateOutputs (words : List UInt32) :
    allLocations (separateOutputs words).words (Listing.ofWords words).instructions =
      (allLocations words (Listing.ofWords words).instructions).map
        (·.reread (separateOutputs words).words) := by
  rw [allLocations, allLocations, List.map_filterMap]
  apply List.filterMap_congr
  intro instruction member
  exact read?_separateOutputs (List.mem_of_mem_filter member)

section Orderly

variable (orderly : Orderly words (Listing.ofWords words).instructions
  (Listing.ofWords words).truncated)
include orderly

/-- An orderly module gives an id the location that its allocation begins with. -/
theorem mem_locationPairs_initial_iff {id location : UInt32} :
    (id, location) ∈ locationPairs words (Listing.ofWords words).instructions ↔
      (Allocation.initial words).location? id = some location :=
  mem_locationPairs_iff orderly rfl

/-- An id that is given a location has one in the end. -/
theorem outcome_of_locationOf? {id location : UInt32}
    (given : locationOf? words id = some location) :
    ∃ last, (Allocation.outcome words).location? id = some last := by
  have once : ((locationPairs words (Listing.ofWords words).instructions).map (·.1)).Nodup := by
    rw [locationPairs, List.map_map]
    exact orderly.oneLocation
  rw [locationOf?, (Cursor.readAll_start words).1, lookup_eq_some_iff_of_nodup once,
    mem_locationPairs_initial_iff orderly] at given
  obtain ⟨place, stands, held⟩ := Option.bind_eq_some_iff.mp given
  obtain ⟨inside, _⟩ := List.getElem?_eq_some_iff.mp held
  rw [← (separateOutputs_touches words).1] at inside
  rw [Allocation.outcome_location?, stands, Option.bind_some, List.getElem?_eq_getElem inside]
  exact ⟨_, rfl⟩

/-- Reading a separated module again finds for each id the location it has in the end. -/
theorem locationOf?_separateOutputs (id : UInt32) :
    locationOf? (separateOutputs words).words id = (Allocation.outcome words).location? id := by
  have alike : (allLocations (separateOutputs words).words (Listing.ofWords words).instructions).map
        (fun decoration => (decoration.target, decoration.offset)) =
      (allLocations words (Listing.ofWords words).instructions).map
        fun decoration => (decoration.target, decoration.offset) := by
    rw [allLocations_separateOutputs, List.map_map]
    rfl
  have once : ((locationPairs (separateOutputs words).words
      (Listing.ofWords words).instructions).map (·.1)).Nodup := by
    rw [locationPairs, allLocations_separateOutputs, List.map_map, List.map_map]
    exact orderly.oneLocation
  apply Option.ext
  intro location
  rw [locationOf?, (Cursor.readAll_start _).1, listing_separateOutputs,
    lookup_eq_some_iff_of_nodup once, mem_locationPairs_iff orderly alike,
    Allocation.outcome_location?]

end Orderly

end Module

section TwoModules

variable {first second : List UInt32}

/-- The same entry points have the same interfaces. -/
theorem interfaceOf_congr
    (sameEntryPoints : entryPointWords first (Listing.ofWords first).instructions =
      entryPointWords second (Listing.ofWords second).instructions) (stage : Stage) :
    interfaceOf first stage = interfaceOf second stage := by
  rw [interfaceOf_eq_firstInterface, interfaceOf_eq_firstInterface, sameEntryPoints]

variable
  (firstOrderly : Orderly first (Listing.ofWords first).instructions
    (Listing.ofWords first).truncated)
  (secondOrderly : Orderly second (Listing.ofWords second).instructions
    (Listing.ofWords second).truncated)
  (same : SameFacts first (Listing.ofWords first).instructions
    second (Listing.ofWords second).instructions)
include firstOrderly secondOrderly same

/-- The same facts decide alike whether a module is separated. -/
theorem applied_congr : (separateOutputs first).applied = (separateOutputs second).applied := by
  rw [Bool.eq_iff_iff, applied_iff_scannable.1, applied_iff_scannable.1,
    scannable_iff_of_orderly firstOrderly, scannable_iff_of_orderly secondOrderly,
    same.entryPoints]
  simp only [interfaceOf_congr same.entryPoints]

/-- The same facts make the same allocation to begin with. -/
theorem initial_congr : Allocation.initial first = Allocation.initial second := by
  have locations : (Allocation.initial first).location? = (Allocation.initial second).location? := by
    funext id
    apply Option.ext
    intro location
    rw [← mem_locationPairs_initial_iff firstOrderly, ← mem_locationPairs_initial_iff secondOrderly,
      same.locations]
  have highestLocation : highest (scannedLocations first) = highest (scannedLocations second) := by
    rw [scannedLocations_eq firstOrderly, scannedLocations_eq secondOrderly]
    apply UInt32.le_antisymm
    · exact highest_allLocations_le fun pair => (same.locations pair).mp
    · exact highest_allLocations_le fun pair => (same.locations pair).mpr
  exact congrArg₂ Allocation.mk locations highestLocation

/-- The same facts make the same ids located in a storage class, in the same order. -/
theorem locatedIds_congr (storageClass : UInt32) (ids : List UInt32) :
    Slot.locatedIds storageClass (slotsOf first ids) =
      Slot.locatedIds storageClass (slotsOf second ids) := by
  apply Slot.locatedIds_settled_congr
  intro id
  have alike : ((placeOf? first id).isSome = true ∧
        lastClass? (scannedVariables first) id = some storageClass) ↔
      (placeOf? second id).isSome = true ∧
        lastClass? (scannedVariables second) id = some storageClass := by
    rw [locatedIn_iff firstOrderly, locatedIn_iff secondOrderly, same.declarations]
    simp only [same.locations]
  rw [Slot.locatedIds_found, Slot.locatedIds_found]
  exact if_congr alike rfl rfl

/-- The same facts make the same allocation in the end. -/
theorem outcome_congr : Allocation.outcome first = Allocation.outcome second := by
  have final : Allocation.final first = Allocation.final second := by
    simp only [Allocation.final, StageInterfaces.ofListed,
      locatedIds_congr firstOrderly secondOrderly same, interfaceOf_congr same.entryPoints,
      initial_congr firstOrderly secondOrderly same]
  rw [Allocation.outcome, Allocation.outcome, applied_congr firstOrderly secondOrderly same, final,
    initial_congr firstOrderly secondOrderly same]

end TwoModules

/-- Separation depends on the facts about interfaces alone. Of two orderly modules with
the same facts both are separated or neither is, and every id that is given a location
has the same one in both afterwards.

The headers, the other instructions and the order of the decorations and of the variables
may differ. The fresh locations may wrap around. -/
theorem same_facts_separate_alike (first second : List UInt32)
    (firstOrderly : Orderly first (Cursor.start first).readAll.1
      (Cursor.start first).readAll.2.truncated)
    (secondOrderly : Orderly second (Cursor.start second).readAll.1
      (Cursor.start second).readAll.2.truncated)
    (same : SameFacts first (Cursor.start first).readAll.1
      second (Cursor.start second).readAll.1) :
    (separateOutputs first).applied = (separateOutputs second).applied ∧
      ∀ id location, locationOf? first id = some location →
        ∃ last, locationOf? (separateOutputs first).words id = some last ∧
          locationOf? (separateOutputs second).words id = some last := by
  rw [(Cursor.readAll_start first).1] at firstOrderly same
  rw [(Cursor.readAll_start second).1] at secondOrderly same
  rw [(Cursor.readAll_start first).2] at firstOrderly
  rw [(Cursor.readAll_start second).2] at secondOrderly
  constructor
  · exact applied_congr firstOrderly secondOrderly same
  · intro id location given
    obtain ⟨last, ends⟩ := outcome_of_locationOf? firstOrderly given
    refine ⟨last, ?_, ?_⟩
    · rw [locationOf?_separateOutputs firstOrderly, ends]
    · rw [locationOf?_separateOutputs secondOrderly, ← outcome_congr firstOrderly secondOrderly same,
        ends]

/-- A module with the facts of the matched one, in another order. Its header is another,
and it has a capability, a memory model, a type, and a decoration that is no location. -/
def reorderedModule : List UInt32 :=
  [0x07230203, 0x00010600, 7, 128, 0] ++
    encodeInstruction 17 [1] ++
    encodeInstruction 14 [0, 1] ++
    encodeInstruction Opcode.entryPoint.toUInt16 [Stage.vertex.executionModel, 1, 0, 10, 11] ++
    encodeInstruction Opcode.entryPoint.toUInt16
      [Stage.fragment.executionModel, 2, 0, 21, 22, 10, 20] ++
    encodeInstruction Opcode.decorate.toUInt16 [11, 31, 2] ++
    [(22, 1), (20, 0), (10, 0), (21, 0), (11, 1)].flatMap (fun entry =>
      encodeInstruction Opcode.decorate.toUInt16 [entry.1, locationDecoration, entry.2]) ++
    encodeInstruction 22 [6, 32] ++
    [(21, inputClass), (20, outputClass), (22, inputClass), (11, outputClass),
      (10, outputClass)].flatMap (fun entry =>
        encodeInstruction Opcode.declareVariable.toUInt16 [6, entry.1, entry.2])

/-- Output 10, which is the first to be decorated in the one module and the third in the
other, ends with the same location in both. -/
theorem reordered_module_separates_alike :
    (separateOutputs matchedModule).applied = true ∧
      (separateOutputs reorderedModule).applied = true ∧
      locationOf? matchedModule 10 = some 0 ∧
      ∃ last, locationOf? (separateOutputs matchedModule).words 10 = some last ∧
        locationOf? (separateOutputs reorderedModule).words 10 = some last := by
  have matched := Cursor.readAll_start matchedModule
  have reordered := Cursor.readAll_start reorderedModule
  have sameFacts : SameFacts matchedModule (Cursor.start matchedModule).readAll.1
      reorderedModule (Cursor.start reorderedModule).readAll.1 := by
    rw [matched.1, reordered.1]
    constructor
    case entryPoints => decide
    case locations =>
      have permuted : (locationPairs matchedModule (Listing.ofWords matchedModule).instructions).Perm
          (locationPairs reorderedModule (Listing.ofWords reorderedModule).instructions) := by decide
      exact fun _ => permuted.mem_iff
    case declarations =>
      have permuted : (allVariables matchedModule (Listing.ofWords matchedModule).instructions).Perm
          (allVariables reorderedModule (Listing.ofWords reorderedModule).instructions) := by decide
      exact fun _ => permuted.mem_iff
  obtain ⟨alike, ends⟩ := same_facts_separate_alike matchedModule reorderedModule
    (by rw [matched.1, matched.2]; decide) (by rw [reordered.1, reordered.2]; decide) sameFacts
  have applied : (separateOutputs matchedModule).applied = true :=
    applied_iff_scannable.1.mpr (by decide)
  have given : locationOf? matchedModule 10 = some 0 := by
    rw [locationOf?, matched.1]
    decide
  exact ⟨applied, alike ▸ applied, given, ends 10 0 given⟩

end RenderAssets.Spirv
