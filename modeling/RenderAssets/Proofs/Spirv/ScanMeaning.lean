import RenderAssets.Proofs.Spirv.SettledModules

/-!
# What scanned interfaces say about a module

The scan moves one cursor through the module and overwrites what it knows of an id as
it goes. Here its outcome is told from the list of instructions alone, with neither a
cursor nor an order of events. The slots of a stage are those of its first entry point.
The first slot of an id holds the place of the last location given to the id behind
every entry point, and the class of the last variable of the id behind every entry
point and decoration. All other slots are empty. The description leaves no choice: there
is one pair of interfaces that it fits.
-/

namespace RenderAssets.Spirv

/-- The last instruction with a property, among those behind every instruction of a
kind that is passed. -/
def LastBehind (passed : Instruction → Bool) (wanted : Instruction → Prop)
    (instructions : List Instruction) (last : Instruction) : Prop :=
  ∃ before later, instructions = before ++ last :: later ∧ (passed last = false ∧ wanted last) ∧
    ∀ behind ∈ later, passed behind = false ∧ ¬ wanted behind

/-- A variable with an id. -/
structure Instruction.Declares (instruction : Instruction) (words : List UInt32)
    (id : UInt32) : Prop where
  declares : instruction.hasOpcode Opcode.declareVariable = true
  named : instruction.word? words 2 = some id

/-- The words of an entry point behind its text are ids. The text begins at the fourth
word. -/
def Instruction.ListsIds (instruction : Instruction) (words ids : List UInt32) : Prop :=
  ∃ index, 3 ≤ index ∧ instruction.EndsText words index ∧
    (∀ earlier, 3 ≤ earlier → earlier < index → ¬ instruction.EndsText words earlier) ∧
    ∀ rank, ids[rank]? = instruction.word? words (index + 1 + rank)

section Described

variable (words : List UInt32) (instructions : List Instruction) (truncated : Bool)

/-- The decoration that has the last word on the location of an id. -/
def LocatedBy (id : UInt32) (site : Instruction) : Prop :=
  LastBehind (·.hasOpcode Opcode.entryPoint) (·.Locates words id) instructions site

/-- The variable that has the last word on the storage class of an id. -/
def ClassedBy (id : UInt32) (declared : Instruction) : Prop :=
  LastBehind (fun earlier => earlier.hasOpcode Opcode.entryPoint ||
    earlier.hasOpcode Opcode.decorate) (·.Declares words id) instructions declared

/-- A location that is given to any id behind every entry point. -/
def GivesLocation (location : UInt32) : Prop :=
  ∃ before site later, instructions = before ++ site :: later ∧
    (∃ target, site.Locates words target) ∧ site.word? words 3 = some location ∧
    ∀ behind ∈ later, behind.hasOpcode Opcode.entryPoint = false

/-- A slot holds what the instructions say of its id. -/
structure Slot.Tells (slot : Slot) : Prop where
  located : ∀ site, LocatedBy words instructions slot.id site →
    slot.location? = some (site.offset + 3)
  unlocated : (¬ ∃ site, LocatedBy words instructions slot.id site) → slot.location? = none
  classed : ∀ declared, ClassedBy words instructions slot.id declared →
    ∃ number, declared.word? words 3 = some number ∧ slot.storageClass? = some number
  unclassed : (¬ ∃ declared, ClassedBy words instructions slot.id declared) →
    slot.storageClass? = none

/-- Slots describe a stage. -/
structure Slot.Describe (stage : Stage) (slots : List Slot) : Prop where
  /-- There is a slot for each interface id of the first entry point of the stage. -/
  ids : ∃ before first later, instructions = before ++ first :: later ∧
    NamesStage words stage first ∧ (∀ earlier ∈ before, ¬ NamesStage words stage earlier) ∧
    first.ListsIds words (slots.map (·.id))
  /-- A slot is empty in a truncated module, and if its id has had a slot before. -/
  empty : ∀ before slot later, slots = before ++ slot :: later →
    truncated = true ∨ slot.id ∈ before.map (·.id) → slot = { id := slot.id }
  /-- Any other slot holds what the module says of its id. -/
  informed : ∀ before slot later, slots = before ++ slot :: later →
    truncated = false → slot.id ∉ before.map (·.id) → slot.Tells words instructions

/-- Interfaces describe a module: the slots of both stages, and the highest of the
locations that are given to any id. It is zero where no location is looked at. -/
structure StageInterfaces.Describe (interfaces : StageInterfaces) : Prop where
  vertex : Slot.Describe words instructions truncated .vertex interfaces.vertex
  fragment : Slot.Describe words instructions truncated .fragment interfaces.fragment
  above : truncated = false → ∀ location, GivesLocation words instructions location →
    location ≤ interfaces.highestLocation
  attained :
    truncated = false ∧ GivesLocation words instructions interfaces.highestLocation ∨
      interfaces.highestLocation = 0 ∧
        (truncated = true ∨ ∀ location, ¬ GivesLocation words instructions location)

end Described

section Last

variable {passed : Instruction → Bool} {wanted : Instruction → Prop}
  {instructions : List Instruction}

/-- With nothing of a kind behind them, instructions stay behind the last one. -/
theorem afterLast_append_of_none (before : List Instruction) {later : List Instruction}
    (none : ∀ behind ∈ later, passed behind = false) :
    afterLast passed (before ++ later) = afterLast passed before ++ later := by
  have kept : ∀ behind ∈ later.reverse, (!passed behind) = true := by
    intro behind member
    rw [none behind (List.mem_reverse.mp member), Bool.not_false]
  rw [afterLast, List.rtakeWhile, List.reverse_append, List.takeWhile_append_of_pos kept,
    List.reverse_append, List.reverse_reverse]
  rfl

/-- What is left behind the passed instructions is where the last one is looked for. -/
theorem lastBehind_iff {last : Instruction} :
    LastBehind passed wanted instructions last ↔
      ∃ before later, afterLast passed instructions = before ++ last :: later ∧ wanted last ∧
        ∀ behind ∈ later, ¬ wanted behind := by
  constructor
  · rintro ⟨before, later, rfl, ⟨own, has⟩, behind⟩
    refine ⟨afterLast passed before, later, afterLast_append_of_none before ?_, has,
      fun other member => (behind other member).2⟩
    exact List.forall_mem_cons.mpr ⟨own, fun other member => (behind other member).1⟩
  · rintro ⟨before, later, left, has, behind⟩
    obtain ⟨skipped, split⟩ := List.rtakeWhile_suffix (fun other => !passed other) instructions
    change skipped ++ afterLast passed instructions = instructions at split
    have none : ∀ other ∈ last :: later, passed other = false := by
      intro other member
      have kept : other ∈ afterLast passed instructions :=
        left ▸ List.mem_append_right before member
      obtain ⟨_, _, _, notPassed, _⟩ := mem_afterLast_iff.mp kept
      exact notPassed
    obtain ⟨own, noneBehind⟩ := List.forall_mem_cons.mp none
    refine ⟨skipped ++ before, later, ?_, ⟨own, has⟩,
      fun other member => ⟨noneBehind other member, behind other member⟩⟩
    rw [List.append_assoc, ← left, split]

end Last

section Read

variable {Entry : Type} {own : Instruction → Bool} {read : Instruction → Option Entry}
  {key : Entry → UInt32} {id : UInt32}

/-- The entry with a key as which an instruction of a kind is read, if any. -/
def readAs (own : Instruction → Bool) (read : Instruction → Option Entry) (key : Entry → UInt32)
    (id : UInt32) (instruction : Instruction) : Option Entry :=
  if own instruction then (read instruction).filter (key · == id) else none

/-- An instruction is read as an entry of the key if it is of the kind and the entry is one. -/
theorem readAs_eq_some_iff {instruction : Instruction} {entry : Entry} :
    readAs own read key id instruction = some entry ↔
      own instruction = true ∧ read instruction = some entry ∧ key entry = id := by
  by_cases same : own instruction = true
  · simp only [readAs, same, ↓reduceIte, Option.filter_eq_some_iff, beq_iff_eq, true_and]
  · simp [readAs, same]

variable {passed : Instruction → Bool} {wanted : Instruction → Prop}
  {instructions : List Instruction}
  (reads : ∀ instruction ∈ afterLast passed instructions,
    wanted instruction ↔ (readAs own read key id instruction).isSome = true)
include reads

/-- Where the wanted instructions are those that are read as an entry of a key, the last of
them is read. -/
theorem exists_read_of_lastBehind {last : Instruction}
    (found : LastBehind passed wanted instructions last) :
    ∃ entry, own last = true ∧ read last = some entry ∧ key entry = id := by
  obtain ⟨before, later, left, has, _⟩ := lastBehind_iff.mp found
  have read := (reads last (left ▸ List.mem_append_cons_self)).mp has
  simpa only [Option.isSome_iff_exists, readAs_eq_some_iff] using read

/-- The last entry of the key is then read off the last wanted instruction. -/
theorem getLast?_read_iff {entry : Entry} :
    ((((afterLast passed instructions).filter own).filterMap read).filter
        (key · == id)).getLast? = some entry ↔
      ∃ last, LastBehind passed wanted instructions last ∧
        own last = true ∧ read last = some entry ∧ key entry = id := by
  simp only [← readAs_eq_some_iff]
  rw [List.filter_filterMap, List.filterMap_filter, List.getLast?_filterMap,
    List.findSome?_eq_some_iff]
  change (∃ later last before, _ ∧ readAs own read key id last = _ ∧
    ∀ behind ∈ later, readAs own read key id behind = none) ↔ _
  simp only [lastBehind_iff]
  -- The instructions are searched from their end, so what is behind the last one comes first.
  constructor
  · rintro ⟨later, last, before, split, found, none⟩
    have left : afterLast passed instructions = before.reverse ++ last :: later.reverse := by
      rw [← List.reverse_reverse (afterLast passed instructions), split]
      simp
    refine ⟨last, ⟨before.reverse, later.reverse, left, ?_, ?_⟩, found⟩
    · rw [reads last (left ▸ List.mem_append_cons_self), found, Option.isSome_some]
    · intro behind member
      rw [reads behind (left ▸ List.mem_append_right _ (List.mem_cons_of_mem _ member)),
        none behind (List.mem_reverse.mp member)]
      exact Bool.false_ne_true
  · rintro ⟨last, ⟨before, later, left, _, behind⟩, found⟩
    refine ⟨later.reverse, last, before.reverse, ?_, found, ?_⟩
    · rw [left]
      simp
    · intro other member
      have listed := List.mem_reverse.mp member
      have unread := behind other listed
      rwa [reads other (left ▸ List.mem_append_right _ (List.mem_cons_of_mem _ listed)),
        Option.not_isSome_iff_eq_none] at unread

end Read

/-- Two slots of one id that hold what the instructions say of it are the same. -/
theorem Slot.Tells.unique {words : List UInt32} {instructions : List Instruction}
    {slot other : Slot} (tells : slot.Tells words instructions)
    (otherTells : other.Tells words instructions) (same : slot.id = other.id) : slot = other := by
  have location : slot.location? = other.location? := by
    by_cases known : ∃ site, LocatedBy words instructions other.id site
    · obtain ⟨site, last⟩ := known
      rw [tells.located site (same ▸ last), otherTells.located site last]
    · rw [tells.unlocated (same ▸ known), otherTells.unlocated known]
  have storageClass : slot.storageClass? = other.storageClass? := by
    by_cases known : ∃ declared, ClassedBy words instructions other.id declared
    · obtain ⟨declared, last⟩ := known
      obtain ⟨number, stands, classed⟩ := tells.classed declared (same ▸ last)
      obtain ⟨otherNumber, otherStands, otherClassed⟩ := otherTells.classed declared last
      rw [classed, otherClassed, ← stands, ← otherStands]
    · rw [tells.unclassed (same ▸ known), otherTells.unclassed known]
  cases slot
  cases other
  simp only at same location storageClass
  rw [same, location, storageClass]

/-- A decoration locates an id exactly when it is read as a location of this id. -/
theorem Instruction.locates_iff {words : List UInt32} {instruction : Instruction} {id : UInt32} :
    instruction.Locates words id ↔
      (readAs (·.hasOpcode Opcode.decorate) (LocationDecoration.read? words) (·.target) id
        instruction).isSome = true := by
  simp only [Option.isSome_iff_exists, readAs_eq_some_iff, LocationDecoration.read?_eq_some_iff]
  constructor
  · rintro ⟨decorates, long, kind, target⟩
    obtain ⟨fits, _, _⟩ := word?_eq_some_iff.mp target
    have inside : instruction.offset + 3 < words.length := by
      rw [Instruction.stop] at fits
      omega
    have location : instruction.word? words 3 = some words[instruction.offset + 3] :=
      word?_eq_some_iff.mpr ⟨fits, long, List.getElem?_eq_getElem inside⟩
    exact ⟨⟨id, _, _⟩, decorates, ⟨target, kind, location, rfl⟩, rfl⟩
  · rintro ⟨decoration, decorates, ⟨target, kind, location, _⟩, rfl⟩
    obtain ⟨_, long, _⟩ := word?_eq_some_iff.mp location
    exact ⟨decorates, long, kind, target⟩

/-- A variable that is long enough has an id exactly when it is read as one of this id. -/
theorem Instruction.declares_iff {words : List UInt32} {instruction : Instruction} {id : UInt32}
    (stands : instruction.StandsIn words)
    (long : instruction.hasOpcode Opcode.declareVariable = true → 4 ≤ instruction.wordCount) :
    instruction.Declares words id ↔
      (readAs (·.hasOpcode Opcode.declareVariable) (VariableDeclaration.read? words) (·.id) id
        instruction).isSome = true := by
  simp only [Option.isSome_iff_exists, readAs_eq_some_iff]
  constructor
  · rintro ⟨declares, named⟩
    obtain ⟨declaration, read⟩ := Option.isSome_iff_exists.mp
      ((VariableDeclaration.read?_isSome_iff stands).mpr (long declares))
    have again := (VariableDeclaration.read?_eq_some_iff.mp read).1
    exact ⟨declaration, declares, read, Option.some.inj (again.symm.trans named)⟩
  · rintro ⟨declaration, declares, read, rfl⟩
    exact ⟨declares, (VariableDeclaration.read?_eq_some_iff.mp read).1⟩

section EntryPoint

variable {instruction : Instruction} {words found : List UInt32}
  (present : instruction.words? words = some found)
include present

/-- The interface of an entry point is what stands behind the first end of its text. -/
theorem interfaceIds_of_endsText {index : Nat} (begins : 3 ≤ index)
    (ends : instruction.EndsText words index)
    (first : ∀ earlier, 3 ≤ earlier → earlier < index → ¬ instruction.EndsText words earlier) :
    interfaceIds found = found.drop (index + 1) := by
  obtain ⟨skipped, rfl⟩ := Nat.exists_eq_add_of_le begins
  obtain ⟨word, stands, stops⟩ := (endsText_iff present skipped).mp ends
  obtain ⟨inside, rfl⟩ := List.getElem?_eq_some_iff.mp stands
  have position : (found.drop 3).findIdx (fun word => !continuesText word) = skipped := by
    refine (List.findIdx_eq inside).mpr ⟨stops, fun earlier before => ?_⟩
    rw [Bool.eq_false_iff]
    intro stopsBefore
    exact first _ (Nat.le_add_right 3 earlier) (Nat.add_lt_add_left before 3)
      ((endsText_iff present earlier).mpr
        ⟨_, List.getElem?_eq_getElem (Nat.lt_trans before inside), stopsBefore⟩)
  rw [interfaceIds_eq_drop, position]

/-- Where an entry point has an interface, the ids that it lists are those. -/
theorem listsIds_iff (follows : instruction.HasInterface words) {ids : List UInt32} :
    instruction.ListsIds words ids ↔ ids = interfaceIds found := by
  constructor
  · rintro ⟨index, begins, ends, first, ranks⟩
    rw [interfaceIds_of_endsText present begins ends first]
    apply List.ext_getElem?
    intro rank
    rw [ranks, Instruction.word?_of_present present, List.getElem?_drop]
  · rintro rfl
    obtain ⟨index, begins, ends, first, _⟩ := follows
    refine ⟨index, begins, ends, first, fun rank => ?_⟩
    rw [interfaceIds_of_endsText present begins ends first, List.getElem?_drop,
      Instruction.word?_of_present present]

end EntryPoint

/-- The slots of an interface whose first slots of each id are given, one by one. -/
theorem Slot.eq_settled_iff {first : UInt32 → Slot} (named : ∀ id, (first id).id = id)
    {seen ids : List UInt32} {slots : List Slot} :
    slots = settled first seen ids ↔ slots.map (·.id) = ids ∧
      ∀ before slot later, slots = before ++ slot :: later →
        slot = if slot.id ∈ before.map (·.id) ∨ slot.id ∈ seen then { id := slot.id }
          else first slot.id := by
  induction slots generalizing seen ids with
  | nil =>
    cases ids with
    | nil => simp [settled]
    | cons id rest => simp [settled]
  | cons slot rest inductionHypothesis =>
    cases ids with
    | nil => simp [settled]
    | cons id others =>
      rw [settled, List.cons.injEq, inductionHypothesis, List.map_cons, List.cons.injEq]
      constructor
      · rintro ⟨own, sameIds, later⟩
        have sameId : slot.id = id := by
          rw [own]
          split
          · rfl
          · exact named id
        subst sameId
        refine ⟨⟨rfl, sameIds⟩, ?_⟩
        intro before other after split
        rcases List.cons_eq_append_iff.mp split with ⟨rfl, rest⟩ | ⟨before, rfl, rest⟩
        · obtain ⟨rfl, rfl⟩ := List.cons.inj rest
          simpa using own
        -- The id of the first slot is seen by the rest, and stands before every slot of it.
        · have stands := later before other after rest
          simpa [or_assoc, or_comm, or_left_comm] using stands
      · rintro ⟨⟨rfl, sameIds⟩, all⟩
        refine ⟨by simpa using all [] slot rest rfl, sameIds, ?_⟩
        intro before other after split
        have stands := all (slot :: before) other after (by rw [split, List.cons_append])
        simpa [or_assoc, or_comm, or_left_comm] using stands

section Module

variable {words : List UInt32}

section Whole

variable (whole : (Listing.ofWords words).truncated = false)
include whole

/-- In a module that is not truncated, the location of an id is that of the decoration
that has the last word on it. -/
theorem lastLocation?_eq_some_iff {id : UInt32} {place : Nat} :
    lastLocation? (scannedLocations words) id = some place ↔
      ∃ site, LocatedBy words (Listing.ofWords words).instructions id site ∧
        place = site.offset + 3 := by
  rw [lastLocation?, Option.map_eq_some_iff, scannedLocations,
    Listing.decorations_of_whole whole]
  simp only [getLast?_read_iff fun _ _ => Instruction.locates_iff]
  constructor
  · rintro ⟨decoration, ⟨site, last, _, read, _⟩, rfl⟩
    exact ⟨site, last, (LocationDecoration.read?_eq_some_iff.mp read).2.2.2⟩
  · rintro ⟨site, last, rfl⟩
    obtain ⟨decoration, found⟩ :=
      exists_read_of_lastBehind (fun _ _ => Instruction.locates_iff) last
    exact ⟨decoration, ⟨site, last, found⟩,
      (LocationDecoration.read?_eq_some_iff.mp found.2.1).2.2.2⟩

variable (long : ∀ instruction ∈ (Listing.ofWords words).declaredVariables,
  4 ≤ instruction.wordCount)
include long

/-- Behind every entry point and decoration, the variables of an id are those read as such. -/
theorem declares_iff_of_long (id : UInt32) :
    ∀ instruction ∈ afterLast (fun earlier => earlier.hasOpcode Opcode.entryPoint ||
        earlier.hasOpcode Opcode.decorate) (Listing.ofWords words).instructions,
      instruction.Declares words id ↔
        (readAs (·.hasOpcode Opcode.declareVariable) (VariableDeclaration.read? words) (·.id) id
          instruction).isSome = true := by
  intro instruction member
  apply Instruction.declares_iff (stands_of_mem (mem_of_mem_afterLast member)).1
  intro declares
  exact long instruction (Listing.mem_declaredVariables_iff.mpr ⟨whole, member, declares⟩)

/-- The storage class of an id is that of the variable that has the last word on it. -/
theorem lastClass?_eq_some_iff {id number : UInt32} :
    lastClass? (scannedVariables words) id = some number ↔
      ∃ declared, ClassedBy words (Listing.ofWords words).instructions id declared ∧
        declared.word? words 3 = some number := by
  rw [lastClass?, Option.map_eq_some_iff, scannedVariables,
    Listing.declaredVariables_of_whole whole]
  simp only [getLast?_read_iff (declares_iff_of_long whole long id)]
  constructor
  · rintro ⟨declaration, ⟨declared, last, _, read, _⟩, rfl⟩
    exact ⟨declared, last, (VariableDeclaration.read?_eq_some_iff.mp read).2⟩
  · rintro ⟨declared, last, stands⟩
    obtain ⟨declaration, found⟩ :=
      exists_read_of_lastBehind (declares_iff_of_long whole long id) last
    have again := (VariableDeclaration.read?_eq_some_iff.mp found.2.1).2
    exact ⟨declaration, ⟨declared, last, found⟩, Option.some.inj (again.symm.trans stands)⟩

/-- What is known of an id once the module has been scanned is what its instructions say. -/
theorem tells_found (id : UInt32) :
    (Slot.found words id).Tells words (Listing.ofWords words).instructions where
  located := fun site last => (lastLocation?_eq_some_iff whole).mpr ⟨site, last, rfl⟩
  unlocated := by
    intro none
    apply Option.eq_none_iff_forall_ne_some.mpr
    intro place located
    obtain ⟨site, last, _⟩ := (lastLocation?_eq_some_iff whole).mp located
    exact none ⟨site, last⟩
  classed := by
    intro declared last
    obtain ⟨declaration, _, read, _⟩ :=
      exists_read_of_lastBehind (declares_iff_of_long whole long _) last
    have stands := (VariableDeclaration.read?_eq_some_iff.mp read).2
    exact ⟨_, stands, (lastClass?_eq_some_iff whole long).mpr ⟨declared, last, stands⟩⟩
  unclassed := by
    intro none
    apply Option.eq_none_iff_forall_ne_some.mpr
    intro number classed
    obtain ⟨declared, last, _⟩ := (lastClass?_eq_some_iff whole long).mp classed
    exact none ⟨declared, last⟩

/-- A slot holds what the instructions say of its id exactly if it is the one found. -/
theorem tells_iff {slot : Slot} :
    slot.Tells words (Listing.ofWords words).instructions ↔ slot = Slot.found words slot.id := by
  constructor
  · exact fun tells => tells.unique (tells_found whole long slot.id) rfl
  · intro same
    rw [same]
    exact tells_found whole long slot.id

end Whole

/-- Nothing is found in a truncated module. -/
theorem found_of_truncated (truncated : (Listing.ofWords words).truncated = true) (id : UInt32) :
    Slot.found words id = { id } := by
  rw [Slot.found, scannedLocations_of_truncated truncated, scannedVariables_of_truncated truncated]
  rfl

/-- Where a stage has interface ids, its first entry point lists just these. -/
theorem listed_iff {stage : Stage} (some : interfaceOf words stage ≠ []) {ids : List UInt32} :
    (∃ before first later, (Listing.ofWords words).instructions = before ++ first :: later ∧
      NamesStage words stage first ∧ (∀ earlier ∈ before, ¬ NamesStage words stage earlier) ∧
      first.ListsIds words ids) ↔ ids = interfaceOf words stage := by
  obtain ⟨first, named, follows⟩ := (interfaceOf_ne_nil_iff stage).mp some
  obtain ⟨found, present, _⟩ := (stands_of_mem (List.mem_of_find?_eq_some named)).1.present
  have interface : interfaceOf words stage = interfaceIds found := by
    rw [interfaceOf, named]
    simp only [present, Option.getD_some]
  rw [interface, ← listsIds_iff present follows]
  constructor
  · rintro ⟨before, other, later, split, names, none, lists⟩
    have same := (entryPoint?_eq_some_iff stage other).mpr ⟨before, later, split, names, none⟩
    obtain rfl := Option.some.inj (named.symm.trans same)
    exact lists
  · intro lists
    obtain ⟨before, later, split, names, none⟩ := (entryPoint?_eq_some_iff stage first).mp named
    exact ⟨before, first, later, split, names, none, lists⟩

/-- The slots that describe a stage are those of its interface ids. -/
theorem slot_describe_iff (scannable : Scannable words) {stage : Stage} {slots : List Slot} :
    Slot.Describe words (Listing.ofWords words).instructions (Listing.ofWords words).truncated
        stage slots ↔ slots = slotsOf words (interfaceOf words stage) := by
  have each (before : List Slot) (slot : Slot) :
      (((Listing.ofWords words).truncated = true ∨ slot.id ∈ before.map (·.id) →
          slot = { id := slot.id }) ∧
        ((Listing.ofWords words).truncated = false → slot.id ∉ before.map (·.id) →
          slot.Tells words (Listing.ofWords words).instructions)) ↔
        slot = if slot.id ∈ before.map (·.id) ∨ slot.id ∈ ([] : List UInt32) then { id := slot.id }
          else Slot.found words slot.id := by
    cases truncated : (Listing.ofWords words).truncated with
    | true => simp [found_of_truncated truncated]
    | false =>
      rw [tells_iff truncated scannable.declaredVariables]
      by_cases repeated : slot.id ∈ before.map (·.id)
      · simp [repeated]
      · simp [repeated]
  rw [slotsOf, Slot.eq_settled_iff fun _ => rfl, ← listed_iff (scannable.interfaces stage)]
  simp only [← each]
  constructor
  · rintro ⟨ids, empty, informed⟩
    exact ⟨ids, fun before slot later split =>
      ⟨empty before slot later split, informed before slot later split⟩⟩
  · rintro ⟨ids, both⟩
    exact ⟨ids, fun before slot later split => (both before slot later split).1,
      fun before slot later split => (both before slot later split).2⟩

/-- In a module that is not truncated, the locations given are those scanned. -/
theorem givesLocation_iff (whole : (Listing.ofWords words).truncated = false)
    {location : UInt32} :
    GivesLocation words (Listing.ofWords words).instructions location ↔
      ∃ decoration ∈ scannedLocations words, decoration.location = location := by
  constructor
  · rintro ⟨before, site, later, split, ⟨target, locates⟩, stands, none⟩
    have own : site.hasOpcode Opcode.entryPoint = false :=
      Instruction.hasOpcode_of_ne locates.decorates (by decide)
    have after := mem_afterLast_iff.mpr ⟨before, later, split, own, none⟩
    refine ⟨⟨target, location, site.offset + 3⟩, List.mem_filterMap.mpr ⟨site,
      Listing.mem_decorations_iff.mpr ⟨whole, after, locates.decorates⟩, ?_⟩, rfl⟩
    exact LocationDecoration.read?_eq_some_iff.mpr ⟨locates.target, locates.kind, stands, rfl⟩
  · rintro ⟨decoration, member, rfl⟩
    obtain ⟨site, scanned, read⟩ := List.mem_filterMap.mp member
    obtain ⟨_, after, decorates⟩ := Listing.mem_decorations_iff.mp scanned
    obtain ⟨before, later, split, _, none⟩ := mem_afterLast_iff.mp after
    obtain ⟨target, kind, stands, _⟩ := LocationDecoration.read?_eq_some_iff.mp read
    obtain ⟨_, long, _⟩ := Instruction.word?_eq_some_iff.mp stands
    exact ⟨before, site, later, split, ⟨_, decorates, long, kind, target⟩, stands, none⟩

/-- The highest location is the one that is described. -/
theorem highest_describe_iff {highestLocation : UInt32} :
    (((Listing.ofWords words).truncated = false → ∀ location,
          GivesLocation words (Listing.ofWords words).instructions location →
            location ≤ highestLocation) ∧
        ((Listing.ofWords words).truncated = false ∧
            GivesLocation words (Listing.ofWords words).instructions highestLocation ∨
          highestLocation = 0 ∧ ((Listing.ofWords words).truncated = true ∨ ∀ location,
            ¬ GivesLocation words (Listing.ofWords words).instructions location))) ↔
      highestLocation = highest (scannedLocations words) := by
  cases truncated : (Listing.ofWords words).truncated with
  | true =>
    rw [scannedLocations_of_truncated truncated]
    simp [highest]
  | false =>
    simp only [givesLocation_iff truncated, true_and, forall_const, Bool.false_eq_true, false_or]
    constructor
    · rintro ⟨above, attained | ⟨rfl, none⟩⟩
      · exact (highest_eq_of_attained (fun decoration member => above _ ⟨decoration, member, rfl⟩)
          attained).symm
      · have unscanned : scannedLocations words = [] :=
          List.eq_nil_iff_forall_not_mem.mpr fun decoration member =>
            none _ ⟨decoration, member, rfl⟩
        rw [unscanned]
        rfl
    · rintro rfl
      refine ⟨?_, ?_⟩
      · rintro _ ⟨decoration, member, rfl⟩
        exact location_le_highest member
      · rcases highest_attained (scannedLocations words) with unscanned | attained
        · rw [unscanned]
          simp [highest]
        · exact .inl attained

/-- The interfaces that describe a module are those read off its listing. -/
theorem describe_iff (scannable : Scannable words) {interfaces : StageInterfaces} :
    interfaces.Describe words (Listing.ofWords words).instructions
        (Listing.ofWords words).truncated ↔ interfaces = .ofListed words := by
  constructor
  · rintro ⟨vertex, fragment, above, attained⟩
    have sameVertex := (slot_describe_iff scannable).mp vertex
    have sameFragment := (slot_describe_iff scannable).mp fragment
    have sameHighest := highest_describe_iff.mp ⟨above, attained⟩
    cases interfaces
    simp only at sameVertex sameFragment sameHighest
    rw [sameVertex, sameFragment, sameHighest, StageInterfaces.ofListed]
  · rintro rfl
    have sameHighest : (StageInterfaces.ofListed words).highestLocation =
        highest (scannedLocations words) := rfl
    obtain ⟨above, attained⟩ := highest_describe_iff.mpr sameHighest
    exact ⟨(slot_describe_iff scannable).mpr rfl, (slot_describe_iff scannable).mpr rfl,
      above, attained⟩

/-- The interfaces of a module can be scanned exactly when its instructions are separable, and
then the scan finds the one pair of interfaces that describes the instructions. They are read
one after the other from the start, with no regard to how the scan searches for them. -/
theorem scan_finds_what_instructions_say (words : List UInt32) (interfaces : StageInterfaces) :
    StageInterfaces.scan? words = some interfaces ↔
      Separable words (Cursor.start words).readAll.1 (Cursor.start words).readAll.2.truncated ∧
        interfaces.Describe words (Cursor.start words).readAll.1
          (Cursor.start words).readAll.2.truncated := by
  rw [(Cursor.readAll_start words).1, (Cursor.readAll_start words).2,
    ← scannable_iff_separable, scan?_eq_some_iff]
  exact and_congr_right fun scannable => (describe_iff scannable).symm

end Module

/-- Decorations and variables stand out of order here. Only the vertex entry point that comes
first counts; it lists 10 twice. 10 is located and declared twice, 11 is located in front of
the entry points and declared in front of a decoration, and 20 is decorated without a location. -/
def scatteredModule : List UInt32 :=
  [0x07230203, 0x00010000, 0, 64, 0] ++
    encodeInstruction Opcode.decorate.toUInt16 [11, locationDecoration, 9] ++
    encodeInstruction Opcode.entryPoint.toUInt16 [Stage.vertex.executionModel, 1, 0, 10, 11, 10] ++
    encodeInstruction Opcode.entryPoint.toUInt16 [Stage.fragment.executionModel, 2, 0, 10, 20] ++
    encodeInstruction Opcode.entryPoint.toUInt16 [Stage.vertex.executionModel, 3, 0, 11] ++
    encodeInstruction Opcode.decorate.toUInt16 [10, locationDecoration, 5] ++
    encodeInstruction Opcode.declareVariable.toUInt16 [7, 11, outputClass] ++
    encodeInstruction Opcode.decorate.toUInt16 [10, locationDecoration, 2] ++
    encodeInstruction Opcode.decorate.toUInt16 [20, locationDecoration] ++
    encodeInstruction Opcode.declareVariable.toUInt16 [7, 10, inputClass] ++
    encodeInstruction Opcode.declareVariable.toUInt16 [8, 10, outputClass]

/-- The first slot of 10 has the last location and the last class of 10, which is not the
highest location; nothing is known of 11 and 20. -/
theorem scattered_module_is_described :
    (⟨[⟨10, some 38, some outputClass⟩, ⟨11, none, none⟩, ⟨10, none, none⟩],
        [⟨10, some 38, some outputClass⟩, ⟨20, none, none⟩], 5⟩ : StageInterfaces).Describe
      scatteredModule (Cursor.start scatteredModule).readAll.1
        (Cursor.start scatteredModule).readAll.2.truncated := by
  have scanned : StageInterfaces.scan? scatteredModule =
      some ⟨[⟨10, some 38, some outputClass⟩, ⟨11, none, none⟩, ⟨10, none, none⟩],
        [⟨10, some 38, some outputClass⟩, ⟨20, none, none⟩], 5⟩ :=
    (scan?_eq_some_iff _).mpr (by decide)
  exact ((scan_finds_what_instructions_say scatteredModule _).mp scanned).2

end RenderAssets.Spirv
