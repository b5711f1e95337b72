import Mathlib.Data.List.Find
import Mathlib.Logic.Function.Basic
import RenderAssets.Proofs.Spirv.InstructionWords

/-!
# What the interface scan finds

The scan is restated over the listing of a module, with no cursor. Its entry
points are all listed ones. Its decorations are those after the last entry point,
its variables those after the last decoration that comes behind the entry points;
a truncated module has neither, because the search for one more entry point used
the cursor up.

The slots are restated as a family over ids: the first slot of an id in an
interface holds the last location and the last storage class scanned for the id,
and a later slot of the same id holds nothing. `scan?_eq_some_iff` joins the two:
it says exactly when there are two interfaces to scan, and what is found then.
-/

namespace RenderAssets.Spirv

namespace Listing

/-- The entry points of a module. -/
def entryPoints (listing : Listing) : List Instruction :=
  listing.instructions.filter (·.hasOpcode Opcode.entryPoint)

/-- The decorations that are scanned. -/
def decorations (listing : Listing) : List Instruction :=
  (listing.following (·.hasOpcode Opcode.entryPoint)).instructions.filter
    (·.hasOpcode Opcode.decorate)

/-- The variables that are scanned. -/
def declaredVariables (listing : Listing) : List Instruction :=
  ((listing.following (·.hasOpcode Opcode.entryPoint)).following
    (·.hasOpcode Opcode.decorate)).instructions.filter (·.hasOpcode Opcode.declareVariable)

/-- Without a truncation, the decorations behind every entry point are scanned. -/
theorem decorations_of_whole {listing : Listing} (whole : listing.truncated = false) :
    listing.decorations =
      (afterLast (·.hasOpcode Opcode.entryPoint) listing.instructions).filter
        (·.hasOpcode Opcode.decorate) := by
  simp only [decorations, following, whole, Bool.false_eq_true, ↓reduceIte]

/-- Without a truncation, the variables behind every entry point and every decoration are
scanned. -/
theorem declaredVariables_of_whole {listing : Listing} (whole : listing.truncated = false) :
    listing.declaredVariables =
      (afterLast (fun earlier => earlier.hasOpcode Opcode.entryPoint ||
        earlier.hasOpcode Opcode.decorate) listing.instructions).filter
          (·.hasOpcode Opcode.declareVariable) := by
  simp only [declaredVariables, following, whole, Bool.false_eq_true, ↓reduceIte,
    afterLast_afterLast]

/-- Decorations are scanned in a module that is not truncated, behind every entry
point. -/
theorem mem_decorations_iff {listing : Listing} {instruction : Instruction} :
    instruction ∈ listing.decorations ↔ listing.truncated = false ∧
      instruction ∈ afterLast (·.hasOpcode Opcode.entryPoint) listing.instructions ∧
      instruction.hasOpcode Opcode.decorate = true := by
  unfold decorations following
  cases listing.truncated <;> simp

/-- Variables are scanned in a module that is not truncated, behind every entry point
and every decoration. A decoration that comes before some entry point is not the
last thing searched for, so it makes no difference. -/
theorem mem_declaredVariables_iff {listing : Listing} {instruction : Instruction} :
    instruction ∈ listing.declaredVariables ↔ listing.truncated = false ∧
      instruction ∈ afterLast (fun earlier => earlier.hasOpcode Opcode.entryPoint ||
        earlier.hasOpcode Opcode.decorate) listing.instructions ∧
      instruction.hasOpcode Opcode.declareVariable = true := by
  rw [← afterLast_afterLast]
  unfold declaredVariables following
  cases listing.truncated <;> simp [afterLast]

end Listing

section Scanned

variable (words : List UInt32)

/-- The first entry point of a stage. -/
def entryPoint? (stage : Stage) : Option Instruction :=
  (Listing.ofWords words).instructions.find? fun instruction =>
    instruction.hasOpcode Opcode.entryPoint &&
      instruction.word? words 1 == some stage.executionModel

/-- The interface ids of the first entry point of a stage; none without one. -/
def interfaceOf (stage : Stage) : List UInt32 :=
  match entryPoint? words stage with
  | some instruction => interfaceIds ((instruction.words? words).getD [])
  | none => []

/-- The location decorations that are scanned. -/
def scannedLocations : List LocationDecoration :=
  (Listing.ofWords words).decorations.filterMap (LocationDecoration.read? words)

/-- The variables that are scanned, as far as they are long enough. -/
def scannedVariables : List VariableDeclaration :=
  (Listing.ofWords words).declaredVariables.filterMap (VariableDeclaration.read? words)

end Scanned

/-- Where the last location of an id stands. -/
def lastLocation? (decorations : List LocationDecoration) (id : UInt32) : Option Nat :=
  (decorations.filter (·.target == id)).getLast?.map (·.offset)

/-- The storage class that an id is declared with last. -/
def lastClass? (declarations : List VariableDeclaration) (id : UInt32) : Option UInt32 :=
  (declarations.filter (·.id == id)).getLast?.map (·.storageClass)

/-- The highest of some locations. -/
def highest (decorations : List LocationDecoration) : UInt32 :=
  (decorations.map (·.location)).foldl max 0

namespace Slot

/-- The slots of an interface whose first slots of each id are given. The ids seen
before have had theirs. -/
def settled (first : UInt32 → Slot) : (seen ids : List UInt32) → List Slot
  | _, [] => []
  | seen, id :: rest => (if id ∈ seen then { id } else first id) :: settled first (id :: seen) rest

/-- A slot that takes the location of a decoration. -/
def locate (decoration : LocationDecoration) (slot : Slot) : Slot :=
  { slot with location? := some decoration.offset }

/-- A slot that takes the storage class of a variable. -/
def classify (declaration : VariableDeclaration) (slot : Slot) : Slot :=
  { slot with storageClass? := some declaration.storageClass }

/-- What is known of an id once the whole module has been scanned. -/
def found (words : List UInt32) (id : UInt32) : Slot where
  id := id
  location? := lastLocation? (scannedLocations words) id
  storageClass? := lastClass? (scannedVariables words) id

end Slot

/-- The slots of interface ids once the whole module has been scanned. -/
def slotsOf (words ids : List UInt32) : List Slot := Slot.settled (Slot.found words) [] ids

/-- The interfaces of a module, read off its listing. -/
def StageInterfaces.ofListed (words : List UInt32) : StageInterfaces where
  vertex := slotsOf words (interfaceOf words .vertex)
  fragment := slotsOf words (interfaceOf words .fragment)
  highestLocation := highest (scannedLocations words)

/-- What a module must have for its interfaces to be scanned: entry points long
enough to be read, an interface for both stages, and variables long enough. -/
structure Scannable (words : List UInt32) : Prop where
  entryPoints : ∀ instruction ∈ (Listing.ofWords words).entryPoints, 4 ≤ instruction.wordCount
  interfaces : ∀ stage, interfaceOf words stage ≠ []
  declaredVariables : ∀ instruction ∈ (Listing.ofWords words).declaredVariables,
    4 ≤ instruction.wordCount

instance (words : List UInt32) : Decidable (Scannable words) :=
  decidable_of_iff
    ((∀ instruction ∈ (Listing.ofWords words).entryPoints, 4 ≤ instruction.wordCount) ∧
      (interfaceOf words .vertex ≠ [] ∧ interfaceOf words .fragment ≠ []) ∧
      ∀ instruction ∈ (Listing.ofWords words).declaredVariables, 4 ≤ instruction.wordCount)
    ⟨fun ⟨entryPoints, both, declared⟩ =>
      ⟨entryPoints, fun stage => by cases stage; exacts [both.1, both.2], declared⟩,
    fun scannable =>
      ⟨scannable.entryPoints, ⟨scannable.interfaces .vertex, scannable.interfaces .fragment⟩,
        scannable.declaredVariables⟩⟩

namespace Slot

/-- Slots whose ids have all been seen do not depend on what the first would be. -/
theorem settled_congr {first other : UInt32 → Slot} {seen : List UInt32} (ids : List UInt32)
    (same : ∀ id, id ∉ seen → first id = other id) :
    settled first seen ids = settled other seen ids := by
  induction ids generalizing seen with
  | nil => rfl
  | cons id rest inductionHypothesis =>
    have restSame : ∀ later, later ∉ id :: seen → first later = other later := by
      intro later absent
      exact same later fun member => absent (List.mem_cons_of_mem id member)
    simp only [settled, inductionHypothesis restSame]
    by_cases repeated : id ∈ seen
    · simp only [repeated, ↓reduceIte]
    · simp only [repeated, ↓reduceIte, same id repeated]

/-- Changing the first slot of an id changes what the first slot of that id is.
In the rest of the interface the id has been seen, so nothing else changes. -/
theorem settle_settled (first : UInt32 → Slot) (named : ∀ id, (first id).id = id)
    (change : Slot → Slot) (changed : UInt32) {seen : List UInt32} (ids : List UInt32)
    (fresh : changed ∉ seen) :
    settle changed change (settled first seen ids) =
      settled (Function.update first changed (change (first changed))) seen ids := by
  induction ids generalizing seen with
  | nil => rfl
  | cons id rest inductionHypothesis =>
    by_cases same : id = changed
    · subst same
      have unaffected : ∀ later, later ∉ id :: seen →
          first later = Function.update first id (change (first id)) later := by
        intro later absent
        have different : later ≠ id := fun equal => absent (equal ▸ List.mem_cons_self)
        rw [Function.update_of_ne different]
      simp only [settled, fresh, ↓reduceIte, settle, named, Function.update_self,
        settled_congr rest unaffected]
    · have onward : changed ∉ id :: seen := by
        intro member
        rcases List.mem_cons.mp member with equal | earlier
        · exact same equal.symm
        · exact fresh earlier
      by_cases repeated : id ∈ seen
      · simp only [settled, repeated, ↓reduceIte, settle, same, inductionHypothesis onward]
      · simp only [settled, repeated, ↓reduceIte, settle, named, same,
          Function.update_of_ne same, inductionHypothesis onward]

/-- Noting things one after the other leaves, in the first slot of each id, what the
notes on that id make of it in turn. Induction on the notes from the last one on. -/
theorem foldl_settle_settled {Note : Type} (target : Note → UInt32) (change : Note → Slot → Slot)
    (keeps : ∀ note slot, (change note slot).id = slot.id) (first : UInt32 → Slot)
    (named : ∀ id, (first id).id = id) (ids : List UInt32) (notes : List Note) :
    notes.foldl (fun slots note => settle (target note) (change note) slots)
        (settled first [] ids) =
      settled (fun id => (notes.filter (target · == id)).foldl (fun slot note => change note slot)
        (first id)) [] ids := by
  induction notes using List.reverseRecOn with
  | nil => rfl
  | append_singleton earlier note inductionHypothesis =>
    have namedEarlier : ∀ id, ((earlier.filter (target · == id)).foldl
        (fun slot note => change note slot) (first id)).id = id := by
      intro id
      induction earlier.filter (target · == id) using List.reverseRecOn with
      | nil => exact named id
      | append_singleton before last same =>
        rw [List.foldl_append, List.foldl_cons, List.foldl_nil, keeps, same]
    rw [List.foldl_append, inductionHypothesis, List.foldl_cons, List.foldl_nil,
      settle_settled _ namedEarlier _ _ ids List.not_mem_nil]
    congr 1
    funext id
    by_cases same : id = target note
    · subst same
      simp [List.filter_append, List.foldl_append]
    · simp [Function.update_of_ne same, List.filter_append, Ne.symm same]

/-- Before anything is known, every slot is as any later slot of its id. -/
theorem unsettled_eq_settled (seen ids : List UInt32) :
    unsettled ids = settled (fun id => { id }) seen ids := by
  induction ids generalizing seen with
  | nil => rfl
  | cons id rest inductionHypothesis =>
    have onward := inductionHypothesis (id :: seen)
    simp only [unsettled] at onward
    simp only [unsettled, List.map_cons, settled, ite_self, onward]

/-- A slot that knows something is the first of its id. -/
theorem eq_first_of_mem_settled {first : UInt32 → Slot} (named : ∀ id, (first id).id = id)
    {seen ids : List UInt32} {slot : Slot} (member : slot ∈ settled first seen ids)
    (informed : slot ≠ { id := slot.id }) : slot.id ∈ ids ∧ slot = first slot.id := by
  induction ids generalizing seen with
  | nil => exact absurd member List.not_mem_nil
  | cons id rest inductionHypothesis =>
    rcases List.mem_cons.mp member with rfl | later
    · by_cases repeated : id ∈ seen
      · simp only [repeated, ↓reduceIte, ne_eq, not_true_eq_false] at informed
      · simp only [repeated, ↓reduceIte, named, List.mem_cons_self, and_self]
    · obtain ⟨belongs, same⟩ := inductionHypothesis later
      exact ⟨List.mem_cons_of_mem id belongs, same⟩

end Slot

namespace StageInterfaces

/-- Noting locations treats the two interfaces and the highest location apart. -/
theorem foldl_noteLocation (interfaces : StageInterfaces) (decorations : List LocationDecoration) :
    decorations.foldl noteLocation interfaces =
      { vertex := decorations.foldl (fun slots decoration =>
          Slot.settle decoration.target (Slot.locate decoration) slots) interfaces.vertex
        fragment := decorations.foldl (fun slots decoration =>
          Slot.settle decoration.target (Slot.locate decoration) slots) interfaces.fragment
        highestLocation :=
          (decorations.map (·.location)).foldl max interfaces.highestLocation } := by
  induction decorations generalizing interfaces with
  | nil => rfl
  | cons decoration rest inductionHypothesis =>
    rw [List.foldl_cons, inductionHypothesis]
    rfl

/-- Noting variables treats the two interfaces apart. -/
theorem foldl_noteVariable (interfaces : StageInterfaces)
    (declarations : List VariableDeclaration) :
    declarations.foldl noteVariable interfaces =
      { vertex := declarations.foldl (fun slots declaration =>
          Slot.settle declaration.id (Slot.classify declaration) slots) interfaces.vertex
        fragment := declarations.foldl (fun slots declaration =>
          Slot.settle declaration.id (Slot.classify declaration) slots) interfaces.fragment
        highestLocation := interfaces.highestLocation } := by
  induction declarations generalizing interfaces with
  | nil => rfl
  | cons declaration rest inductionHypothesis =>
    rw [List.foldl_cons, inductionHypothesis]
    rfl

/-- Noting all locations and then all variables leaves the last of each in the first
slot of every id. -/
theorem settled_of_notes (ids : List UInt32) (decorations : List LocationDecoration)
    (declarations : List VariableDeclaration) :
    declarations.foldl (fun slots declaration =>
        Slot.settle declaration.id (Slot.classify declaration) slots)
      (decorations.foldl (fun slots decoration =>
        Slot.settle decoration.target (Slot.locate decoration) slots) (Slot.unsettled ids)) =
      Slot.settled (fun id => { id, location? := lastLocation? decorations id,
                                storageClass? := lastClass? declarations id }) [] ids := by
  have located (id : UInt32) : (decorations.filter (·.target == id)).foldl
      (fun slot decoration => Slot.locate decoration slot) { id } =
        { id, location? := lastLocation? decorations id } := by
    unfold lastLocation?
    induction decorations.filter (·.target == id) using List.reverseRecOn with
    | nil => rfl
    | append_singleton earlier last same =>
      rw [List.foldl_append, same]
      simp [Slot.locate]
  have classed (id : UInt32) : (declarations.filter (·.id == id)).foldl
      (fun slot declaration => Slot.classify declaration slot)
        { id, location? := lastLocation? decorations id } =
        { id, location? := lastLocation? decorations id,
          storageClass? := lastClass? declarations id } := by
    unfold lastClass?
    induction declarations.filter (·.id == id) using List.reverseRecOn with
    | nil => rfl
    | append_singleton earlier last same =>
      rw [List.foldl_append, same]
      simp [Slot.classify]
  rw [Slot.unsettled_eq_settled [],
    Slot.foldl_settle_settled (·.target) Slot.locate (fun _ _ => rfl) _ (fun _ => rfl)]
  simp only [located]
  rw [Slot.foldl_settle_settled (·.id) Slot.classify (fun _ _ => rfl) _ (fun _ => rfl)]
  simp only [classed]

/-- Noting everything that is scanned gives the interfaces read off the listing. -/
theorem notes_eq_ofListed (words : List UInt32) :
    (scannedVariables words).foldl noteVariable ((scannedLocations words).foldl noteLocation
      { vertex := Slot.unsettled (interfaceOf words .vertex)
        fragment := Slot.unsettled (interfaceOf words .fragment) }) = ofListed words := by
  rw [foldl_noteVariable, foldl_noteLocation]
  simp only [settled_of_notes]
  rfl

/-- The cursors of the scan, read off the listing: every search for an opcode takes
the listed instructions that have it from where the searches before ended. -/
theorem scan?_eq_listed (words : List UInt32) :
    scan? words = (do
      let entryPoints ← (Listing.ofWords words).entryPoints.mapM (EntryPoint.read? words)
      let vertexIds ← EntryPoint.interface? .vertex entryPoints
      let fragmentIds ← EntryPoint.interface? .fragment entryPoints
      let declarations ←
        (Listing.ofWords words).declaredVariables.mapM (VariableDeclaration.read? words)
      return declarations.foldl noteVariable ((scannedLocations words).foldl noteLocation
        { vertex := Slot.unsettled vertexIds, fragment := Slot.unsettled fragmentIds })) := by
  obtain ⟨entryPoints, sound, _, remains⟩ :=
    Cursor.findAll_spec Opcode.entryPoint (Cursor.start_sound words)
  obtain ⟨decorations, soundLater, _, remainsLater⟩ := Cursor.findAll_spec Opcode.decorate sound
  obtain ⟨declared, _⟩ := Cursor.findAll_spec Opcode.declareVariable soundLater
  rw [remains] at decorations remainsLater
  rw [remainsLater] at declared
  have listed : (Cursor.start words).listing = Listing.ofWords words := rfl
  rw [listed] at entryPoints decorations declared
  simp only [scannedLocations, Listing.entryPoints, Listing.decorations,
    Listing.declaredVariables, ← entryPoints, ← decorations, ← declared]
  rfl

end StageInterfaces

/-- Reading every item succeeds exactly when each can be read, and leaves nothing out. -/
theorem mapM_eq_some_iff {Item Value : Type} (read : Item → Option Value) (items : List Item)
    (values : List Value) :
    items.mapM read = some values ↔
      (∀ item ∈ items, (read item).isSome = true) ∧ values = items.filterMap read := by
  induction items generalizing values with
  | nil =>
    constructor
    · intro same
      exact ⟨List.forall_mem_nil _, (Option.some.inj same).symm⟩
    · rintro ⟨_, rfl⟩
      rfl
  | cons item rest inductionHypothesis =>
    rw [List.mapM_cons, List.forall_mem_cons]
    cases one : read item with
    | none => simp
    | some value =>
      rw [List.filterMap_cons_some one]
      cases all : rest.mapM read with
      | none =>
        have refused : ¬ ∀ later ∈ rest, (read later).isSome = true := by
          intro readable
          have accepted := (inductionHypothesis _).mpr ⟨readable, rfl⟩
          rw [all] at accepted
          exact absurd accepted (Option.some_ne_none _).symm
        simp [refused]
      | some others =>
        obtain ⟨readable, same⟩ := (inductionHypothesis others).mp all
        simp only [Option.pure_def, Option.bind_eq_bind, Option.bind_some, Option.some.injEq,
          Option.isSome_some, true_and, and_iff_right readable, same]
        exact eq_comm

section Module

variable {words : List UInt32}

/-- Every instruction of a module stands in its words, behind the header. -/
theorem stands_of_mem {instruction : Instruction}
    (member : instruction ∈ (Listing.ofWords words).instructions) :
    instruction.StandsIn words ∧ min headerWordCount words.length ≤ instruction.offset :=
  Cursor.stands_of_listed (Cursor.start_sound words).inside member

/-- Among entry points that are long enough, the first one that is read for a stage
is the first one of the stage, and its interface is the one of that stage. -/
theorem interface?_eq_some_iff (stage : Stage)
    (long : ∀ instruction ∈ (Listing.ofWords words).entryPoints, 4 ≤ instruction.wordCount)
    (ids : List UInt32) :
    EntryPoint.interface? stage
        ((Listing.ofWords words).entryPoints.filterMap (EntryPoint.read? words)) = some ids ↔
      interfaceOf words stage ≠ [] ∧ ids = interfaceOf words stage := by
  have read (instruction : Instruction)
      (member : instruction ∈ (Listing.ofWords words).entryPoints) :
      ∃ found entryPoint, instruction.words? words = some found ∧
        EntryPoint.read? words instruction = some entryPoint ∧
        instruction.word? words 1 = some entryPoint.executionModel ∧
        entryPoint.interface = interfaceIds found := by
    have stands := (stands_of_mem (List.mem_of_mem_filter member)).1
    obtain ⟨found, present, _⟩ := stands.present
    obtain ⟨entryPoint, accepted⟩ := Option.isSome_iff_exists.mp
      ((EntryPoint.read?_isSome_iff stands).mpr (long instruction member))
    exact ⟨found, entryPoint, present, accepted, EntryPoint.of_read? present accepted⟩
  have first : ((Listing.ofWords words).entryPoints.filterMap (EntryPoint.read? words)).find?
      (fun entryPoint => entryPoint.executionModel == stage.executionModel) =
        (entryPoint? words stage).bind (EntryPoint.read? words) := by
    rw [List.find?_filterMap, Listing.entryPoints, List.find?_filter, entryPoint?]
    congr 1
    apply List.find?_congr
    intro instruction member
    cases opens : instruction.hasOpcode Opcode.entryPoint with
    | false => rfl
    | true =>
      obtain ⟨_, entryPoint, _, accepted, model, _⟩ :=
        read instruction (List.mem_filter.mpr ⟨member, opens⟩)
      rw [accepted, model, Bool.eq_iff_iff]
      simp
  rw [EntryPoint.interface?, first, interfaceOf]
  cases named : entryPoint? words stage with
  | none => simp
  | some instruction =>
    have listed := List.mem_of_find?_eq_some named
    have kind := List.find?_some named
    simp only [Bool.and_eq_true] at kind
    obtain ⟨found, entryPoint, present, accepted, _, same⟩ :=
      read instruction (List.mem_filter.mpr ⟨listed, kind.1⟩)
    simp only [Option.bind_some, accepted, present, Option.getD_some, same]
    by_cases empty : interfaceIds found = []
    · simp [empty]
    · simp only [List.isEmpty_iff, empty, ↓reduceIte, Option.some.injEq, ne_eq,
        not_false_eq_true, true_and]
      exact eq_comm

/-- The scan succeeds exactly on scannable modules and finds what the listing says. -/
theorem scan?_eq_some_iff (interfaces : StageInterfaces) :
    StageInterfaces.scan? words = some interfaces ↔
      Scannable words ∧ interfaces = .ofListed words := by
  have readable : (∀ instruction ∈ (Listing.ofWords words).entryPoints,
      (EntryPoint.read? words instruction).isSome = true) ↔
        ∀ instruction ∈ (Listing.ofWords words).entryPoints, 4 ≤ instruction.wordCount := by
    refine forall₂_congr fun instruction member => ?_
    exact EntryPoint.read?_isSome_iff (stands_of_mem (List.mem_of_mem_filter member)).1
  have declared : (∀ instruction ∈ (Listing.ofWords words).declaredVariables,
      (VariableDeclaration.read? words instruction).isSome = true) ↔
        ∀ instruction ∈ (Listing.ofWords words).declaredVariables, 4 ≤ instruction.wordCount := by
    refine forall₂_congr fun instruction member => ?_
    have listed := mem_of_mem_afterLast (Listing.mem_declaredVariables_iff.mp member).2.1
    exact VariableDeclaration.read?_isSome_iff (stands_of_mem listed).1
  rw [StageInterfaces.scan?_eq_listed]
  simp only [Option.bind_eq_bind, Option.bind_eq_some_iff, mapM_eq_some_iff, readable, declared,
    Option.pure_def, Option.some.injEq]
  constructor
  · rintro ⟨_, ⟨longEntries, rfl⟩, vertexIds, vertex, fragmentIds, fragment, _,
      ⟨longVariables, rfl⟩, rfl⟩
    obtain ⟨someVertex, rfl⟩ := (interface?_eq_some_iff .vertex longEntries vertexIds).mp vertex
    obtain ⟨someFragment, rfl⟩ :=
      (interface?_eq_some_iff .fragment longEntries fragmentIds).mp fragment
    refine ⟨⟨longEntries, ?_, longVariables⟩, ?_⟩
    · rintro (_ | _)
      · exact someVertex
      · exact someFragment
    · exact StageInterfaces.notes_eq_ofListed words
  · rintro ⟨⟨longEntries, both, longVariables⟩, rfl⟩
    refine ⟨_, ⟨longEntries, rfl⟩, _,
      (interface?_eq_some_iff .vertex longEntries _).mpr ⟨both .vertex, rfl⟩, _,
      (interface?_eq_some_iff .fragment longEntries _).mpr ⟨both .fragment, rfl⟩, _,
      ⟨longVariables, rfl⟩, StageInterfaces.notes_eq_ofListed words⟩

end Module

end RenderAssets.Spirv
