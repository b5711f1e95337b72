import RenderAssets.Proofs.Spirv.MovedOutputs
import RenderAssets.Proofs.Spirv.OutputSeparation
import RenderAssets.Proofs.Spirv.SeparationFrame

/-!
# A module decodes the same after separation

Only locations are written, and a location is never read as anything else: not as
the first word of an instruction, a text, an id, the kind of a decoration or a
storage class. So the module has the same instructions afterwards, and a second scan
finds the same interfaces in it. Nothing is asked of the module for that, and the
fresh locations may wrap around.

What a second scan finds to be different is the highest location. It has grown by
one for each output that was moved, while there was room for that.
-/

namespace RenderAssets.Spirv

/-- A decoration with the location that other words hold in its place. -/
def LocationDecoration.reread (words : List UInt32) (decoration : LocationDecoration) :
    LocationDecoration :=
  { decoration with location := words[decoration.offset]?.getD decoration.location }

/-- Decorations that differ in their locations alone locate every id where it was. -/
theorem lastLocation?_reread (words : List UInt32) (decorations : List LocationDecoration)
    (id : UInt32) :
    lastLocation? (decorations.map (·.reread words)) id = lastLocation? decorations id := by
  have sameTarget : (fun decoration : LocationDecoration => decoration.target == id) ∘
      LocationDecoration.reread words = fun decoration => decoration.target == id := rfl
  have sameOffset : LocationDecoration.offset ∘ LocationDecoration.reread words =
      LocationDecoration.offset := rfl
  rw [lastLocation?, lastLocation?, List.filter_map, sameTarget, List.getLast?_map,
    Option.map_map, sameOffset]

/-- A location that no decoration exceeds and some decoration has is the highest. -/
theorem highest_eq_of_attained {decorations : List LocationDecoration} {location : UInt32}
    (below : ∀ decoration ∈ decorations, decoration.location ≤ location)
    (attained : ∃ decoration ∈ decorations, decoration.location = location) :
    highest decorations = location := by
  obtain ⟨decoration, member, rfl⟩ := attained
  exact UInt32.le_antisymm (highest_le below) (location_le_highest member)

section Module

variable {words : List UInt32}

/-- Separation keeps the instructions of a module and whether it is truncated. -/
theorem listing_separateOutputs (words : List UInt32) :
    Listing.ofWords (separateOutputs words).words = Listing.ofWords words := by
  have sameLength := (separateOutputs_touches words).1
  have kept : ({ Cursor.start words with words := (separateOutputs words).words } :
      Cursor).listing = (Cursor.start words).listing := by
    refine Cursor.listing_of_agree (Cursor.start_sound words).inside sameLength ?_
    intro place _ changed
    obtain ⟨site, member, target, locates, _, rfl⟩ := site_of_changed changed
    have long := locates.long
    refine ⟨site, mem_of_mem_afterLast member, by omega, ?_⟩
    simp only [Instruction.stop]
    omega
  have sameStart : Cursor.start (separateOutputs words).words =
      { Cursor.start words with words := (separateOutputs words).words } := by
    simp only [Cursor.start, sameLength]
  change (Cursor.start (separateOutputs words).words).listing = _
  rw [sameStart, kept]
  rfl

/-- Separation keeps every word of an instruction but the location in a decoration. -/
theorem word?_separateOutputs {instruction : Instruction}
    (member : instruction ∈ (Listing.ofWords words).instructions) {index : Nat}
    (other : index = 3 → ∀ target, ¬ instruction.Locates words target) :
    instruction.word? (separateOutputs words).words index = instruction.word? words index := by
  apply Option.ext
  intro word
  rw [Instruction.word?_eq_some_iff, Instruction.word?_eq_some_iff,
    (separateOutputs_touches words).1]
  refine and_congr_right fun _ => and_congr_right fun inside => ?_
  have same : (separateOutputs words).words[instruction.offset + index]? =
      words[instruction.offset + index]? := by
    by_contra changed
    obtain ⟨third, target, locates⟩ := location_of_changed member inside changed
    exact other third target locates
  rw [same]

/-- Separation keeps the words of an instruction that is no decoration. -/
theorem words?_separateOutputs {instruction : Instruction}
    (member : instruction ∈ (Listing.ofWords words).instructions)
    (other : instruction.hasOpcode Opcode.decorate = false) :
    instruction.words? (separateOutputs words).words = instruction.words? words := by
  obtain ⟨found, present, _⟩ := (stands_of_mem member).1.present
  have memberAfter := member
  rw [← listing_separateOutputs] at memberAfter
  obtain ⟨foundAfter, presentAfter, _⟩ := (stands_of_mem memberAfter).1.present
  have same : foundAfter = found := by
    apply List.ext_getElem?
    intro index
    rw [← Instruction.word?_of_present present, ← Instruction.word?_of_present presentAfter]
    apply word?_separateOutputs member
    intro _ target locates
    exact Bool.eq_false_iff.mp other locates.decorates
  rw [present, presentAfter, same]

/-- Separation keeps the interface ids of a stage: its first entry point is the same,
word for word. -/
theorem interfaceOf_separateOutputs (words : List UInt32) (stage : Stage) :
    interfaceOf (separateOutputs words).words stage = interfaceOf words stage := by
  have sameEntryPoint : entryPoint? (separateOutputs words).words stage =
      entryPoint? words stage := by
    rw [entryPoint?, entryPoint?, listing_separateOutputs]
    apply List.find?_congr
    intro instruction member
    rw [word?_separateOutputs member]
    exact fun first => absurd first (by decide)
  rw [interfaceOf, interfaceOf, sameEntryPoint]
  cases named : entryPoint? words stage with
  | none => rfl
  | some instruction =>
    have opens := List.find?_some named
    simp only [Bool.and_eq_true] at opens
    have other : instruction.hasOpcode Opcode.decorate = false :=
      Instruction.hasOpcode_of_ne opens.1 (by decide)
    simp only [words?_separateOutputs (List.mem_of_find?_eq_some named) other]

/-- Separation keeps the variables that are scanned. -/
theorem scannedVariables_separateOutputs (words : List UInt32) :
    scannedVariables (separateOutputs words).words = scannedVariables words := by
  rw [scannedVariables, scannedVariables, listing_separateOutputs]
  apply List.filterMap_congr
  intro instruction member
  obtain ⟨_, after, declares⟩ := Listing.mem_declaredVariables_iff.mp member
  have other : instruction.hasOpcode Opcode.decorate = false :=
    Instruction.hasOpcode_of_ne declares (by decide)
  rw [VariableDeclaration.read?, VariableDeclaration.read?,
    words?_separateOutputs (mem_of_mem_afterLast after) other]

/-- After separation a decoration reads as before, but for its location. -/
theorem read?_separateOutputs {instruction : Instruction}
    (member : instruction ∈ (Listing.ofWords words).instructions) :
    LocationDecoration.read? (separateOutputs words).words instruction =
      (LocationDecoration.read? words instruction).map (·.reread (separateOutputs words).words) := by
  have sameTarget : instruction.word? (separateOutputs words).words 1 = instruction.word? words 1 :=
    word?_separateOutputs member fun third => by omega
  have sameKind : instruction.word? (separateOutputs words).words 2 = instruction.word? words 2 :=
    word?_separateOutputs member fun third => by omega
  have sameLength := (separateOutputs_touches words).1
  apply Option.ext
  intro reread
  rw [Option.map_eq_some_iff, LocationDecoration.read?_eq_some_iff, sameTarget, sameKind]
  constructor
  · rintro ⟨target, kind, location, offset⟩
    obtain ⟨fits, long, value⟩ := Instruction.word?_eq_some_iff.mp location
    have inside : instruction.offset + 3 < words.length := by
      simp only [Instruction.stop, sameLength] at fits
      omega
    refine ⟨⟨reread.target, words[instruction.offset + 3], instruction.offset + 3⟩, ?_, ?_⟩
    · refine LocationDecoration.read?_eq_some_iff.mpr ⟨target, kind, ?_, rfl⟩
      exact Instruction.word?_eq_some_iff.mpr
        ⟨sameLength ▸ fits, long, List.getElem?_eq_getElem inside⟩
    · rw [← offset] at value
      simp only [LocationDecoration.reread, ← offset, value, Option.getD_some]
  · rintro ⟨decoration, read, rfl⟩
    obtain ⟨target, kind, location, offset⟩ := LocationDecoration.read?_eq_some_iff.mp read
    obtain ⟨fits, long, value⟩ := Instruction.word?_eq_some_iff.mp location
    obtain ⟨inside, _⟩ := List.getElem?_eq_some_iff.mp value
    refine ⟨target, kind, ?_, offset⟩
    refine Instruction.word?_eq_some_iff.mpr ⟨sameLength ▸ fits, long, ?_⟩
    have present := List.getElem?_eq_getElem (sameLength ▸ inside)
    simp only [LocationDecoration.reread, offset, present, Option.getD_some]

/-- Separation keeps the location decorations that are scanned, but for the locations. -/
theorem scannedLocations_separateOutputs (words : List UInt32) :
    scannedLocations (separateOutputs words).words =
      (scannedLocations words).map (·.reread (separateOutputs words).words) := by
  rw [scannedLocations, scannedLocations, listing_separateOutputs, List.map_filterMap]
  apply List.filterMap_congr
  intro instruction member
  obtain ⟨_, after, _⟩ := Listing.mem_decorations_iff.mp member
  exact read?_separateOutputs (mem_of_mem_afterLast after)

/-- Separation keeps the slots that are found for interface ids. -/
theorem slotsOf_separateOutputs (words ids : List UInt32) :
    slotsOf (separateOutputs words).words ids = slotsOf words ids := by
  have sameSlot : Slot.found (separateOutputs words).words = Slot.found words := by
    funext id
    rw [Slot.found, Slot.found, scannedLocations_separateOutputs,
      scannedVariables_separateOutputs, lastLocation?_reread]
  rw [slotsOf, slotsOf, sameSlot]

/-- After separation a scan succeeds where it did before, and finds the same slots.
Only the highest location may be another. -/
theorem scan?_separateOutputs (words : List UInt32) :
    StageInterfaces.scan? (separateOutputs words).words =
      (StageInterfaces.scan? words).map fun interfaces =>
        { interfaces with
          highestLocation := highest (scannedLocations (separateOutputs words).words) } := by
  have sameSlots : StageInterfaces.ofListed (separateOutputs words).words =
      { StageInterfaces.ofListed words with
        highestLocation := highest (scannedLocations (separateOutputs words).words) } := by
    simp only [StageInterfaces.ofListed, interfaceOf_separateOutputs, slotsOf_separateOutputs]
  have sameVerdict : Scannable (separateOutputs words).words ↔ Scannable words := by
    constructor
    · rintro ⟨entryPoints, interfaces, declared⟩
      rw [listing_separateOutputs] at entryPoints declared
      exact ⟨entryPoints, fun stage => interfaceOf_separateOutputs words stage ▸ interfaces stage,
        declared⟩
    · rintro ⟨entryPoints, interfaces, declared⟩
      rw [← listing_separateOutputs] at entryPoints declared
      refine ⟨entryPoints, ?_, declared⟩
      intro stage
      rw [interfaceOf_separateOutputs]
      exact interfaces stage
  apply Option.ext
  intro interfaces
  rw [scan?_eq_some_iff, sameVerdict, sameSlots, Option.map_eq_some_iff]
  constructor
  · rintro ⟨scannable, rfl⟩
    exact ⟨.ofListed words, (scan?_eq_some_iff _).mpr ⟨scannable, rfl⟩, rfl⟩
  · rintro ⟨before, scanned, rfl⟩
    obtain ⟨scannable, rfl⟩ := (scan?_eq_some_iff before).mp scanned
    exact ⟨scannable, rfl⟩

/-- Every scanned location stands in the words, and none exceeds the highest. -/
theorem scannedLocations_bounded (words : List UInt32) :
    Relocation.Bounded ((scannedLocations words).map (·.offset))
      ⟨words, highest (scannedLocations words)⟩ := by
  intro place member
  obtain ⟨decoration, scanned, rfl⟩ := List.mem_map.mp member
  obtain ⟨_, _, _, _, value⟩ := of_mem_scannedLocations scanned
  exact ⟨decoration.location, value, location_le_highest scanned⟩

/-- A located place is where some scanned decoration has its location. -/
theorem mem_offsets_of_located {ids : List UInt32} {storageClass : UInt32} {place : Nat}
    (member : place ∈ Slot.located storageClass (slotsOf words ids)) :
    place ∈ (scannedLocations words).map (·.offset) := by
  obtain ⟨slot, belongs, _, stands⟩ := Slot.mem_located_iff.mp member
  obtain ⟨_, last, _⟩ := of_located belongs stands
  obtain ⟨decoration, scanned, _, same⟩ := of_lastLocation? last
  exact List.mem_map.mpr ⟨decoration, scanned, same⟩

/-- While there is room, the outputs that are moved are the located vertex outputs whose
locations are others after separation. -/
theorem mem_movedOfInterfaces_iff {interfaces : StageInterfaces}
    (scanned : StageInterfaces.scan? words = some interfaces)
    (room : interfaces.highestLocation.toNat +
      (Relocation.movedOfInterfaces interfaces words).length < UInt32.size) (place : Nat) :
    place ∈ Relocation.movedOfInterfaces interfaces words ↔
      place ∈ Slot.located outputClass interfaces.vertex ∧
        (separateOutputs words).words[place]? ≠ words[place]? := by
  have separated : (separateOutputs words).words =
      (Relocation.ofInterfaces interfaces words).words := by rw [separateOutputs, scanned]
  obtain ⟨_, rfl⟩ := (scan?_eq_some_iff interfaces).mp scanned
  have different : outputClass ≠ inputClass := by decide
  have told (member : place ∈ Slot.located outputClass (StageInterfaces.ofListed words).vertex) :
      place ∈ Relocation.movedOfInterfaces (.ofListed words) words ↔
        (Relocation.ofInterfaces (.ofListed words) words).words[place]? ≠ words[place]? := by
    refine Relocation.mem_movedOutputs_iff ?_ (located_apart different member) room
    intro output same
    obtain rfl := List.mem_singleton.mp same
    exact scannedLocations_bounded words output (mem_offsets_of_located member)
  rw [separated]
  constructor
  · intro moved
    have member := Relocation.mem_of_mem_movedOutputs moved
    exact ⟨member, (told member).mp moved⟩
  · rintro ⟨member, changed⟩
    exact (told member).mpr changed

/-- The highest location after separation is the one that the relocation counted up
to: no decoration exceeds it, and the output that was moved last has it. -/
theorem highest_separateOutputs {interfaces : StageInterfaces}
    (scanned : StageInterfaces.scan? words = some interfaces)
    (room : interfaces.highestLocation.toNat +
      (Relocation.movedOfInterfaces interfaces words).length < UInt32.size) :
    (highest (scannedLocations (separateOutputs words).words)).toNat =
      interfaces.highestLocation.toNat +
        (Relocation.movedOfInterfaces interfaces words).length := by
  have separated : (separateOutputs words).words =
      (Relocation.ofInterfaces interfaces words).words := by rw [separateOutputs, scanned]
  obtain ⟨_, rfl⟩ := (scan?_eq_some_iff interfaces).mp scanned
  obtain ⟨boundedAfter, counted⟩ := Relocation.bounded_run (scannedLocations_bounded words) room
  by_cases unmoved : Relocation.movedOfInterfaces (.ofListed words) words = []
  · have unchanged := Relocation.run_of_unmoved unmoved
    rw [Relocation.ofInterfaces, unchanged] at separated
    rw [unmoved, separated]
    rfl
  · obtain ⟨output, member, held⟩ := Relocation.highest_held unmoved
    have sameOffsets : (scannedLocations (separateOutputs words).words).map (·.offset) =
        (scannedLocations words).map (·.offset) := by
      rw [scannedLocations_separateOutputs, List.map_map]
      rfl
    have wordOf {decoration : LocationDecoration}
        (belongs : decoration ∈ scannedLocations (separateOutputs words).words) :
        (Relocation.ofInterfaces (.ofListed words) words).words[decoration.offset]? =
          some decoration.location := by
      obtain ⟨_, _, _, _, value⟩ := of_mem_scannedLocations belongs
      exact separated ▸ value
    have reached : highest (scannedLocations (separateOutputs words).words) =
        (Relocation.ofInterfaces (.ofListed words) words).highestLocation := by
      apply highest_eq_of_attained
      · intro decoration belongs
        have known := List.mem_map_of_mem (f := LocationDecoration.offset) belongs
        rw [sameOffsets] at known
        obtain ⟨location, value, below⟩ := boundedAfter decoration.offset known
        obtain rfl := Option.some.inj ((wordOf belongs).symm.trans value)
        exact below
      · have known := mem_offsets_of_located member
        rw [← sameOffsets] at known
        obtain ⟨decoration, belongs, rfl⟩ := List.mem_map.mp known
        exact ⟨decoration, belongs, Option.some.inj ((wordOf belongs).symm.trans held)⟩
    rw [reached]
    exact counted

end Module

/-- A module decodes the same after separation, whatever the words are. Reading it to
the end yields the same instructions at the same places and meets a truncation if it
did before. A scan succeeds if it did before, and finds the same slots for both
stages. The highest location it finds has grown by the number of outputs that were
moved, if there was room for as many, and those are the located vertex outputs whose
words are others.

Instructions are compared along the listing, since no first word is written. The scan
reads nothing else that is written but the locations, and these it only compares with
the highest. -/
theorem separated_module_decodes_alike (words : List UInt32) :
    (Cursor.start (separateOutputs words).words).readAll.1 = (Cursor.start words).readAll.1 ∧
      (Cursor.start (separateOutputs words).words).readAll.2.truncated =
        (Cursor.start words).readAll.2.truncated ∧
      (StageInterfaces.scan? (separateOutputs words).words).map
          (fun found => (found.vertex, found.fragment)) =
        (StageInterfaces.scan? words).map (fun found => (found.vertex, found.fragment)) ∧
      ∀ before, StageInterfaces.scan? words = some before →
        before.highestLocation.toNat +
          (Relocation.movedOfInterfaces before words).length < UInt32.size →
        (∀ place, place ∈ Relocation.movedOfInterfaces before words ↔
          place ∈ Slot.located outputClass before.vertex ∧
            (separateOutputs words).words[place]? ≠ words[place]?) ∧
        ∃ after, StageInterfaces.scan? (separateOutputs words).words = some after ∧
          after.highestLocation.toNat = before.highestLocation.toNat +
            (Relocation.movedOfInterfaces before words).length := by
  obtain ⟨instructions, truncated⟩ := Cursor.readAll_start words
  obtain ⟨instructionsAfter, truncatedAfter⟩ := Cursor.readAll_start (separateOutputs words).words
  rw [instructions, truncated, instructionsAfter, truncatedAfter, listing_separateOutputs]
  refine ⟨rfl, rfl, ?_, ?_⟩
  · rw [scan?_separateOutputs, Option.map_map]
    rfl
  · intro before scanned room
    refine ⟨mem_movedOfInterfaces_iff scanned room, ?_⟩
    rw [scan?_separateOutputs, scanned]
    exact ⟨_, rfl, highest_separateOutputs scanned room⟩

/-- Both vertex outputs of the module are moved, one location after the other, so the
highest location goes from zero to two. -/
theorem crowded_module_decodes_alike :
    Relocation.movedOfInterfaces (.ofListed crowdedModule) crowdedModule = [23, 27] ∧
      ∃ after, StageInterfaces.scan? (separateOutputs crowdedModule).words = some after ∧
        after.highestLocation.toNat = 2 := by
  have scanned : StageInterfaces.scan? crowdedModule = some (.ofListed crowdedModule) :=
    (scan?_eq_some_iff _).mpr ⟨by decide, rfl⟩
  obtain ⟨_, _, _, grows⟩ := separated_module_decodes_alike crowdedModule
  exact ⟨by decide, (grows _ scanned (by decide)).2⟩

end RenderAssets.Spirv
