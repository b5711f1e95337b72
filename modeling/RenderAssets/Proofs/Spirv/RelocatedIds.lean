import RenderAssets.Proofs.Spirv.RelocationRun
import RenderAssets.Proofs.Spirv.LocatedSlots

/-!
# Relocation told in ids

A relocation reads and writes places. What it does can be told without them: it gives
locations to ids. An allocation says which location each id has and which is the highest
so far, and a step gives an output and the first reader of its location the next one, if
a rival has that location too.

The words of a module represent an allocation when every id that has a place finds its
location there. Since different ids have different places, a step on the words and the
same step on the ids keep that up, and so do whole runs. Where the decorations stand, and
in what order, makes no difference to the allocation that a run ends with.
-/

namespace RenderAssets.Spirv

/-- The locations of ids, and the highest location so far. -/
structure Allocation where
  location? : UInt32 → Option UInt32
  highestLocation : UInt32

namespace Allocation

/-- Whether an id has a location. -/
def holds (allocation : Allocation) (location id : UInt32) : Bool :=
  allocation.location? id == some location

/-- Give an output the next location if it shares its own with a rival, and the first of
the readers that has the old one, too. -/
def moveOutput (rivals readers : List UInt32) (allocation : Allocation) (output : UInt32) :
    Allocation :=
  match allocation.location? output with
  | none => allocation
  | some location =>
    if rivals.any (allocation.holds location) then
      { location? := fun id =>
          if id = output ∨ readers.find? (allocation.holds location) = some id
          then some (allocation.highestLocation + 1) else allocation.location? id
        highestLocation := allocation.highestLocation + 1 }
    else
      allocation

/-- The words of a relocation hold at the place of each id the location it is given. -/
structure Represents (place? : UInt32 → Option Nat) (allocation : Allocation)
    (relocation : Relocation) : Prop where
  locations : ∀ id, allocation.location? id = (place? id).bind (relocation.words[·]?)
  highest : allocation.highestLocation = relocation.highestLocation

/-- No two ids have one place. -/
def PlacedApart (place? : UInt32 → Option Nat) : Prop :=
  ∀ id other place, place? id = some place → place? other = some place → id = other

section Steps

variable {place? : UInt32 → Option Nat} {allocation : Allocation} {relocation : Relocation}

/-- An id without a place has no location. -/
theorem Represents.location?_of_unplaced (represents : Represents place? allocation relocation)
    {id : UInt32} (unplaced : place? id = none) : allocation.location? id = none := by
  rw [represents.locations, unplaced, Option.bind_none]

/-- An id with a place has the location that stands there. -/
theorem Represents.location?_of_placed (represents : Represents place? allocation relocation)
    {id : UInt32} {place : Nat} (stands : place? id = some place) :
    allocation.location? id = relocation.words[place]? := by
  rw [represents.locations, stands, Option.bind_some]

/-- An id has a location exactly when the word at its place holds it. -/
theorem Represents.holds_eq (represents : Represents place? allocation relocation)
    (location id : UInt32) :
    allocation.holds location id =
      (place? id).any (Relocation.holds relocation.words location) := by
  rw [holds, represents.locations]
  cases place? id <;> rfl

/-- The first of the readers that has a location is the one whose place is the first to
hold it. -/
theorem Represents.find?_places (represents : Represents place? allocation relocation)
    (readers : List UInt32) (location : UInt32) :
    (readers.filterMap place?).find? (Relocation.holds relocation.words location) =
      (readers.find? (allocation.holds location)).bind place? := by
  rw [List.find?_filterMap]
  congr 2
  funext id
  exact (represents.holds_eq location id).symm

/-- Some rival has a location exactly when the place of one holds it. -/
theorem Represents.any_places (represents : Represents place? allocation relocation)
    (rivals : List UInt32) (location : UInt32) :
    (rivals.filterMap place?).any (Relocation.holds relocation.words location) =
      rivals.any (allocation.holds location) := by
  rw [List.any_filterMap]
  congr 1
  funext id
  rw [represents.holds_eq]
  cases place? id <;> rfl

/-- An output that no rival shares its location with is not moved. -/
theorem moveOutput_of_peace (rivals readers : List UInt32) {output : UInt32}
    (peace : ∀ location, allocation.location? output = some location →
      rivals.any (allocation.holds location) = false) :
    allocation.moveOutput rivals readers output = allocation := by
  rw [moveOutput]
  cases present : allocation.location? output with
  | none => rfl
  | some location => simp only [peace location present, Bool.false_eq_true, ↓reduceIte]

/-- The id that moves along with an output is known by its place. -/
theorem Represents.follows_iff (represents : Represents place? allocation relocation)
    (apart : PlacedApart place?) (readers : List UInt32) (location : UInt32) {id : UInt32}
    {place : Nat} (stands : place? id = some place) :
    (readers.filterMap place?).find? (Relocation.holds relocation.words location) = some place ↔
      readers.find? (allocation.holds location) = some id := by
  rw [represents.find?_places, Option.bind_eq_some_iff]
  constructor
  · rintro ⟨other, found, otherStands⟩
    rw [apart id other place stands otherStands]
    exact found
  · intro found
    exact ⟨id, found, stands⟩

/-- Moving an output by its place does to the words what moving it by its id does to the
allocation. The places of two ids differ, so a write reaches one id only. -/
theorem Represents.moveOutput (represents : Represents place? allocation relocation)
    (apart : PlacedApart place?) (rivals readers : List UInt32) {output : UInt32} {place : Nat}
    (stands : place? output = some place) :
    Represents place? (allocation.moveOutput rivals readers output)
      (relocation.moveOutput (rivals.filterMap place?) (readers.filterMap place?) place) := by
  have own := represents.location?_of_placed stands
  rcases Relocation.moveOutput_cases (rivals.filterMap place?) (readers.filterMap place?)
      relocation place with ⟨free, same⟩ | ⟨location, ⟨held, rival, member, rivalHeld⟩, next, moved⟩
  · have peace : ∀ location, allocation.location? output = some location →
        rivals.any (allocation.holds location) = false := by
      intro location present
      rw [← represents.any_places, Bool.eq_false_iff]
      intro shared
      obtain ⟨rival, member, rivalHolds⟩ := List.any_eq_true.mp shared
      exact free location ⟨own.symm.trans present, rival, member, beq_iff_eq.mp rivalHolds⟩
    rw [moveOutput_of_peace rivals readers peace, same]
    exact represents
  · have conflict : rivals.any (allocation.holds location) = true := by
      rw [← represents.any_places]
      exact List.any_eq_true.mpr ⟨rival, member, beq_iff_eq.mpr rivalHeld⟩
    rw [Allocation.moveOutput, own, held]
    simp only [conflict, ↓reduceIte]
    constructor
    case locations =>
      intro id
      cases known : place? id with
      | none =>
        -- An id without a place has no location, so it neither is the output nor follows it.
        have absent := represents.location?_of_unplaced known
        have different : id ≠ output := by
          rintro rfl
          exact absurd (known.symm.trans stands) (Option.some_ne_none _).symm
        have unfollowed : readers.find? (allocation.holds location) ≠ some id := by
          intro found
          have holding := List.find?_some found
          simp [holds, absent] at holding
        simp only [different, unfollowed, or_self, ↓reduceIte, absent, Option.bind_none]
      | some other =>
        have isOutput : other = place ↔ id = output := by
          constructor
          · rintro rfl
            exact apart id output other known stands
          · rintro rfl
            exact Option.some.inj (known.symm.trans stands)
        have kept := represents.location?_of_placed known
        simp only [Option.bind_some, moved other, isOutput, kept, represents.highest,
          represents.follows_iff apart readers location known]
    case highest => rw [next, represents.highest]

/-- Moving outputs one after the other by their places does to the words what moving them
by their ids does to the allocation. Outputs without a place have no location to move. -/
theorem Represents.run (represents : Represents place? allocation relocation)
    (apart : PlacedApart place?) (rivals readers outputs : List UInt32) :
    Represents place? (outputs.foldl (Allocation.moveOutput rivals readers) allocation)
      ((outputs.filterMap place?).foldl
        (Relocation.moveOutput (rivals.filterMap place?) (readers.filterMap place?))
        relocation) := by
  induction outputs generalizing allocation relocation with
  | nil => exact represents
  | cons output rest inductionHypothesis =>
    cases stands : place? output with
    | none =>
      have absent := represents.location?_of_unplaced stands
      have stays : allocation.moveOutput rivals readers output = allocation := by
        apply moveOutput_of_peace
        intro location present
        exact absurd (present.symm.trans absent) (Option.some_ne_none _)
      rw [List.filterMap_cons_none stands, List.foldl_cons, stays]
      exact inductionHypothesis represents
    | some place =>
      rw [List.filterMap_cons_some stands, List.foldl_cons, List.foldl_cons]
      exact inductionHypothesis (represents.moveOutput apart rivals readers stands)

end Steps

end Allocation

/-- The ids of the located slots in a storage class, in the order of the interface. -/
def Slot.locatedIds (storageClass : UInt32) (slots : List Slot) : List UInt32 :=
  slots.filterMap fun slot =>
    if slot.storageClass? = some storageClass then slot.location?.map fun _ => slot.id else none

section Module

/-- Where the location of an id stands in a module. -/
def placeOf? (words : List UInt32) (id : UInt32) : Option Nat :=
  lastLocation? (scannedLocations words) id

/-- The locations that the ids of a module have. -/
def Allocation.initial (words : List UInt32) : Allocation where
  location? id := (placeOf? words id).bind (words[·]?)
  highestLocation := highest (scannedLocations words)

/-- The locations that the ids of a module have once its outputs have been moved. -/
def Allocation.final (words : List UInt32) : Allocation :=
  (Slot.locatedIds outputClass (StageInterfaces.ofListed words).vertex).foldl
    (moveOutput (Slot.locatedIds outputClass (StageInterfaces.ofListed words).fragment)
      (Slot.locatedIds inputClass (StageInterfaces.ofListed words).fragment))
    (initial words)

variable {words : List UInt32}

/-- A location stands behind the id that it belongs to, so a place has one id. -/
theorem placeOf?_apart (words : List UInt32) : Allocation.PlacedApart (placeOf? words) := by
  intro id other place stands otherStands
  obtain ⟨decoration, scanned, rfl, rfl⟩ := of_lastLocation? stands
  obtain ⟨another, otherScanned, rfl, same⟩ := of_lastLocation? otherStands
  obtain ⟨site, _, locates, offset, _⟩ := of_mem_scannedLocations scanned
  obtain ⟨otherSite, _, otherLocates, otherOffset, _⟩ := of_mem_scannedLocations otherScanned
  exact locates.target_eq otherLocates (by omega)

/-- The located places of a storage class are those of its located ids. -/
theorem located_eq_places (storageClass : UInt32) (ids : List UInt32) :
    Slot.located storageClass (slotsOf words ids) =
      (Slot.locatedIds storageClass (slotsOf words ids)).filterMap (placeOf? words) := by
  rw [Slot.located, Slot.locatedIds, List.filterMap_filterMap]
  apply List.filterMap_congr
  intro slot member
  by_cases classed : slot.storageClass? = some storageClass
  · simp only [classed, ↓reduceIte]
    cases located : slot.location? with
    | none => rfl
    | some place => exact (of_located member located).2.1.symm
  · simp only [classed, ↓reduceIte, Option.bind_none]

/-- Moving the outputs of a module leaves the locations of the final allocation, each at
the place of its id. -/
theorem ofInterfaces_represents (words : List UInt32) :
    (Allocation.final words).Represents (placeOf? words)
      (Relocation.ofInterfaces (.ofListed words) words) := by
  have initial : (Allocation.initial words).Represents (placeOf? words)
      ⟨words, highest (scannedLocations words)⟩ := ⟨fun _ => rfl, rfl⟩
  rw [Relocation.ofInterfaces]
  simp only [StageInterfaces.ofListed, located_eq_places]
  exact initial.run (placeOf?_apart words) _ _ _

end Module

end RenderAssets.Spirv
