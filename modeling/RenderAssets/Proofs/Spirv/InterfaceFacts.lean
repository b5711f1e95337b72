import Mathlib.Data.List.Nodup
import RenderAssets.Proofs.Spirv.RelocatedIds
import RenderAssets.Proofs.Spirv.ScanAcceptance

/-!
# What a module says about its interfaces

The facts are its entry points in order, which locations it gives to which ids, and which
storage classes its variables have. They are read off the plain list of instructions.

The scan searches in sections, so in general it misses some of them. Where the sections
of a module stand in order it finds every location, and every variable if there is a
location at all. Where moreover no id is decorated or declared twice, what the scan knows
of an id is a matter of which facts there are, not of their order.
-/

namespace RenderAssets.Spirv

section Facts

variable (words : List UInt32) (instructions : List Instruction)

/-- The entry points among the instructions of a module, word for word. -/
def entryPointWords : List (Option (List UInt32)) :=
  (instructions.filter (·.hasOpcode Opcode.entryPoint)).map (·.words? words)

/-- The location decorations among the instructions of a module. -/
def allLocations : List LocationDecoration :=
  (instructions.filter (·.hasOpcode Opcode.decorate)).filterMap (LocationDecoration.read? words)

/-- The ids that are given a location, each with the location. -/
def locationPairs : List (UInt32 × UInt32) :=
  (allLocations words instructions).map fun decoration => (decoration.target, decoration.location)

/-- The variables among the instructions of a module, each an id with its storage class. -/
def allVariables : List VariableDeclaration :=
  (instructions.filter (·.hasOpcode Opcode.declareVariable)).filterMap
    (VariableDeclaration.read? words)

/-- Every instruction of one kind stands before every one of another. -/
def StandsBefore (kind other : Instruction → Bool) : Prop :=
  ∀ first ∈ instructions, ∀ second ∈ instructions,
    kind first = true → other second = true → first.offset < second.offset

instance (kind other : Instruction → Bool) : Decidable (StandsBefore instructions kind other) :=
  inferInstanceAs (Decidable (∀ first ∈ instructions, ∀ second ∈ instructions,
    kind first = true → other second = true → first.offset < second.offset))

/-- A module is read to its end, its sections stand in order, its variables have a storage
class, and no id is given two locations or declared twice. -/
structure Orderly (truncated : Bool) : Prop where
  whole : truncated = false
  entryPointsFirst : StandsBefore instructions
    (·.hasOpcode Opcode.entryPoint) (·.hasOpcode Opcode.decorate)
  variablesLast : StandsBefore instructions
    (·.hasOpcode Opcode.decorate) (·.hasOpcode Opcode.declareVariable)
  longVariables : ∀ declared ∈ instructions,
    declared.hasOpcode Opcode.declareVariable = true → 4 ≤ declared.wordCount
  oneLocation : ((allLocations words instructions).map (·.target)).Nodup
  oneClass : ((allVariables words instructions).map (·.id)).Nodup

instance (truncated : Bool) : Decidable (Orderly words instructions truncated) :=
  decidable_of_iff
    (truncated = false ∧
      StandsBefore instructions
        (·.hasOpcode Opcode.entryPoint) (·.hasOpcode Opcode.decorate) ∧
      StandsBefore instructions
        (·.hasOpcode Opcode.decorate) (·.hasOpcode Opcode.declareVariable) ∧
      (∀ declared ∈ instructions,
        declared.hasOpcode Opcode.declareVariable = true → 4 ≤ declared.wordCount) ∧
      ((allLocations words instructions).map (·.target)).Nodup ∧
      ((allVariables words instructions).map (·.id)).Nodup)
    ⟨fun ⟨whole, entryPoints, decorations, long, location, storageClass⟩ =>
      ⟨whole, entryPoints, decorations, long, location, storageClass⟩,
    fun orderly => ⟨orderly.whole, orderly.entryPointsFirst, orderly.variablesLast,
      orderly.longVariables, orderly.oneLocation, orderly.oneClass⟩⟩

end Facts

/-- The location that an id is given in a module, if any. -/
def locationOf? (words : List UInt32) (id : UInt32) : Option UInt32 :=
  (locationPairs words (Cursor.start words).readAll.1).lookup id

section Ordered

variable {kind other : Instruction → Bool} {instructions : List Instruction}
  (increasing : instructions.Pairwise fun earlier later => earlier.offset < later.offset)
  (ordered : StandsBefore instructions kind other)
include increasing ordered

/-- Where every instruction of one kind stands before every one of another, one of the
other kind is behind the last of the first. -/
theorem mem_afterLast_of_standsBefore {instruction : Instruction}
    (listed : instruction ∈ instructions) (same : other instruction = true) :
    instruction ∈ afterLast kind instructions := by
  obtain ⟨before, later, around⟩ := List.append_of_mem listed
  have behind : ∀ after ∈ later, instruction.offset < after.offset := by
    rw [around] at increasing
    exact (List.pairwise_cons.mp (List.pairwise_append.mp increasing).2.1).1
  refine mem_afterLast_iff.mpr ⟨before, later, around, ?_, ?_⟩
  · rw [Bool.eq_false_iff]
    intro both
    exact Nat.lt_irrefl _ (ordered _ listed _ listed both same)
  · intro after member
    rw [Bool.eq_false_iff]
    intro kindred
    have known : after ∈ instructions :=
      around ▸ List.mem_append_right _ (List.mem_cons_of_mem _ member)
    exact Nat.lt_asymm (behind after member) (ordered _ known _ listed kindred same)

/-- Searching for the one kind then passes none of the other kind. -/
theorem filter_afterLast :
    (afterLast kind instructions).filter other = instructions.filter other := by
  obtain ⟨skipped, split⟩ := List.rtakeWhile_suffix (fun instruction => !kind instruction)
    instructions
  change skipped ++ afterLast kind instructions = instructions at split
  have none : skipped.filter other = [] := by
    apply List.filter_eq_nil_iff.mpr
    intro instruction member same
    have listed : instruction ∈ instructions := split ▸ List.mem_append_left _ member
    have behind := mem_afterLast_of_standsBefore increasing ordered listed same
    rw [← split] at increasing
    exact Nat.lt_irrefl _ ((List.pairwise_append.mp increasing).2.2 _ member _ behind)
  have whole := congrArg (List.filter other) split
  rwa [List.filter_append, none, List.nil_append] at whole

end Ordered

/-- Where no two entries have one key, the last entry of a key is the only one. -/
theorem getLast?_filter_eq_some_iff {Entry : Type} (key : Entry → UInt32) {entries : List Entry}
    (once : (entries.map key).Nodup) {wanted : UInt32} {entry : Entry} :
    (entries.filter (key · == wanted)).getLast? = some entry ↔
      entry ∈ entries ∧ key entry = wanted := by
  have mem (other : Entry) : other ∈ entries.filter (key · == wanted) ↔
      other ∈ entries ∧ key other = wanted := by simp [List.mem_filter]
  constructor
  · intro last
    exact (mem entry).mp (List.mem_of_getLast? last)
  · intro known
    have some : entries.filter (key · == wanted) ≠ [] := List.ne_nil_of_mem ((mem entry).mpr known)
    have last := List.getLast?_eq_some_getLast some
    obtain ⟨member, same⟩ := (mem _).mp (List.getLast_mem some)
    rw [last, List.inj_on_of_nodup_map once member known.1 (same.trans known.2.symm)]

/-- Where no two pairs begin alike, looking up finds each of them. -/
theorem lookup_eq_some_iff_of_nodup {pairs : List (UInt32 × UInt32)}
    (once : (pairs.map (·.1)).Nodup) {id location : UInt32} :
    pairs.lookup id = some location ↔ (id, location) ∈ pairs := by
  constructor
  · intro found
    obtain ⟨before, later, rfl, _⟩ := List.lookup_eq_some_iff.mp found
    exact List.mem_append_right _ List.mem_cons_self
  · intro member
    obtain ⟨before, later, rfl⟩ := List.append_of_mem member
    refine List.lookup_eq_some_iff.mpr ⟨before, later, rfl, ?_⟩
    intro earlier known
    rw [List.map_append] at once
    apply bne_iff_ne.mpr
    intro same
    exact List.disjoint_of_nodup_append once (List.mem_map_of_mem known)
      (same ▸ List.mem_cons_self)

section Module

variable {words : List UInt32}

/-- A location stands where its decoration says. -/
theorem location_at_offset {instructions : List Instruction} {decoration : LocationDecoration}
    (member : decoration ∈ allLocations words instructions) :
    words[decoration.offset]? = some decoration.location := by
  obtain ⟨instruction, _, read⟩ := List.mem_filterMap.mp member
  obtain ⟨_, _, location, offset⟩ := LocationDecoration.read?_eq_some_iff.mp read
  obtain ⟨_, _, value⟩ := Instruction.word?_eq_some_iff.mp location
  exact offset ▸ value

/-- The interface ids in the first entry point of a stage. -/
def firstInterface (stage : Stage) (entryPoints : List (Option (List UInt32))) : List UInt32 :=
  match entryPoints.find? fun found => found.bind (·[1]?) == some stage.executionModel with
  | some found => interfaceIds (found.getD [])
  | none => []

/-- The interface of a stage is read off the words of the entry points. -/
theorem interfaceOf_eq_firstInterface (words : List UInt32) (stage : Stage) :
    interfaceOf words stage =
      firstInterface stage (entryPointWords words (Listing.ofWords words).instructions) := by
  have found : (entryPointWords words (Listing.ofWords words).instructions).find?
      (fun found => found.bind (·[1]?) == some stage.executionModel) =
        (entryPoint? words stage).map (·.words? words) := by
    rw [entryPointWords, List.find?_map, List.find?_filter, entryPoint?]
    congr 2
    funext instruction
    rw [Bool.decide_and, Bool.decide_eq_true, Bool.decide_eq_true]
    rfl
  rw [interfaceOf, firstInterface, found]
  cases entryPoint? words stage <;> rfl

/-- Entry points are long enough exactly when they have four words each. -/
theorem longEntryPoints_iff (words : List UInt32) :
    (∀ instruction ∈ (Listing.ofWords words).entryPoints, 4 ≤ instruction.wordCount) ↔
      ∀ found ∈ entryPointWords words (Listing.ofWords words).instructions,
        4 ≤ (found.getD []).length := by
  rw [entryPointWords, List.forall_mem_map]
  refine forall₂_congr fun instruction member => ?_
  obtain ⟨found, present, length⟩ :=
    (stands_of_mem (List.mem_of_mem_filter member)).1.present
  rw [present, Option.getD_some, length]

section Orderly

variable (orderly : Orderly words (Listing.ofWords words).instructions
  (Listing.ofWords words).truncated)
include orderly

/-- Every location of an orderly module is scanned. -/
theorem scannedLocations_eq :
    scannedLocations words = allLocations words (Listing.ofWords words).instructions := by
  have increasing := Cursor.listing_increasing (Cursor.start_sound words).inside
  rw [scannedLocations, allLocations, Listing.decorations_of_whole orderly.whole]
  exact congrArg _ (filter_afterLast increasing orderly.entryPointsFirst)

/-- Every variable of an orderly module is scanned, if there is a location in it. The
decoration stands between the entry points and the variables. -/
theorem scannedVariables_eq {decoration : LocationDecoration}
    (member : decoration ∈ allLocations words (Listing.ofWords words).instructions) :
    scannedVariables words = allVariables words (Listing.ofWords words).instructions := by
  obtain ⟨site, decorates, _⟩ := List.mem_filterMap.mp member
  obtain ⟨listed, decorates⟩ := List.mem_filter.mp decorates
  have increasing := Cursor.listing_increasing (Cursor.start_sound words).inside
  have all : (Listing.ofWords words).declaredVariables =
      (Listing.ofWords words).instructions.filter (·.hasOpcode Opcode.declareVariable) := by
    rw [Listing.declaredVariables_of_whole orderly.whole]
    apply filter_afterLast increasing
    intro first firstListed second secondListed kind declares
    rcases Bool.or_eq_true_iff.mp kind with opens | decoratesToo
    · exact Nat.lt_trans (orderly.entryPointsFirst _ firstListed _ listed opens decorates)
        (orderly.variablesLast _ listed _ secondListed decorates declares)
    · exact orderly.variablesLast _ firstListed _ secondListed decoratesToo declares
  rw [scannedVariables, allVariables, all]

/-- In an orderly module an id has its place in its one location decoration. -/
theorem placeOf?_eq_some_iff {id : UInt32} {place : Nat} :
    placeOf? words id = some place ↔
      ∃ decoration ∈ allLocations words (Listing.ofWords words).instructions,
        decoration.target = id ∧ decoration.offset = place := by
  rw [placeOf?, scannedLocations_eq orderly, lastLocation?, Option.map_eq_some_iff]
  simp only [getLast?_filter_eq_some_iff LocationDecoration.target orderly.oneLocation, and_assoc]

/-- Words in which the same ids are decorated at the same places give an id the location
that they hold at its place. -/
theorem mem_locationPairs_iff {otherWords : List UInt32}
    (alike : (allLocations otherWords (Listing.ofWords words).instructions).map
        (fun decoration => (decoration.target, decoration.offset)) =
      (allLocations words (Listing.ofWords words).instructions).map
        fun decoration => (decoration.target, decoration.offset)) {id location : UInt32} :
    (id, location) ∈ locationPairs otherWords (Listing.ofWords words).instructions ↔
      (placeOf? words id).bind (otherWords[·]?) = some location := by
  have stands {place : Nat} : placeOf? words id = some place ↔
      ∃ decoration ∈ allLocations otherWords (Listing.ofWords words).instructions,
        decoration.target = id ∧ decoration.offset = place := by
    have listed := congrArg ((id, place) ∈ ·) alike
    simp only [List.mem_map, Prod.mk.injEq, eq_iff_iff] at listed
    rw [placeOf?_eq_some_iff orderly, listed]
  simp only [locationPairs, List.mem_map, Prod.mk.injEq, Option.bind_eq_some_iff, stands]
  constructor
  · rintro ⟨decoration, member, rfl, rfl⟩
    exact ⟨_, ⟨decoration, member, rfl, rfl⟩, location_at_offset member⟩
  · rintro ⟨_, ⟨decoration, member, rfl, rfl⟩, held⟩
    exact ⟨decoration, member, rfl,
      Option.some.inj ((location_at_offset member).symm.trans held)⟩

/-- In an orderly module an id is located in a storage class exactly when it is given a
location and declared in that class. -/
theorem locatedIn_iff {id storageClass : UInt32} :
    ((placeOf? words id).isSome = true ∧
        lastClass? (scannedVariables words) id = some storageClass) ↔
      (∃ location, (id, location) ∈ locationPairs words (Listing.ofWords words).instructions) ∧
        ⟨id, storageClass⟩ ∈ allVariables words (Listing.ofWords words).instructions := by
  have given : (placeOf? words id).isSome = true ↔
      ∃ decoration ∈ allLocations words (Listing.ofWords words).instructions,
        decoration.target = id := by
    simp only [Option.isSome_iff_exists, placeOf?_eq_some_iff orderly]
    constructor
    · rintro ⟨_, decoration, member, same, _⟩
      exact ⟨decoration, member, same⟩
    · rintro ⟨decoration, member, same⟩
      exact ⟨_, decoration, member, same, rfl⟩
  have paired : (∃ location,
      (id, location) ∈ locationPairs words (Listing.ofWords words).instructions) ↔
      ∃ decoration ∈ allLocations words (Listing.ofWords words).instructions,
        decoration.target = id := by
    simp [locationPairs]
  rw [given, paired]
  refine and_congr_right ?_
  rintro ⟨decoration, member, _⟩
  rw [scannedVariables_eq orderly member, lastClass?, Option.map_eq_some_iff]
  simp only [getLast?_filter_eq_some_iff VariableDeclaration.id orderly.oneClass]
  constructor
  · rintro ⟨declaration, ⟨known, rfl⟩, rfl⟩
    exact known
  · intro known
    exact ⟨_, ⟨known, rfl⟩, rfl⟩

/-- The interfaces of an orderly module can be scanned when its entry points are long
enough and both stages have an interface. -/
theorem scannable_iff_of_orderly :
    Scannable words ↔
      (∀ found ∈ entryPointWords words (Listing.ofWords words).instructions,
        4 ≤ (found.getD []).length) ∧ ∀ stage, interfaceOf words stage ≠ [] := by
  have longVariables : ∀ instruction ∈ (Listing.ofWords words).declaredVariables,
      4 ≤ instruction.wordCount := by
    intro instruction member
    obtain ⟨_, after, declares⟩ := Listing.mem_declaredVariables_iff.mp member
    exact orderly.longVariables instruction (mem_of_mem_afterLast after) declares
  rw [← longEntryPoints_iff]
  constructor
  · exact fun scannable => ⟨scannable.entryPoints, scannable.interfaces⟩
  · rintro ⟨longEntryPoints, interfaces⟩
    exact ⟨longEntryPoints, interfaces, longVariables⟩

end Orderly

end Module

end RenderAssets.Spirv
