import RenderAssets.Proofs.Spirv.RelocationRun
import RenderAssets.Proofs.Spirv.ScannedInterfaces

/-!
# Interface slots and the decorations behind them

The places that a relocation reads and writes are locations of interface slots.
Each stands in one scanned decoration, two words behind the id it decorates, so a
place determines its id; an id has one storage class, the last one scanned. Hence
no place is both a vertex or fragment output and a fragment input. And the highest
location of a module is at least as high as the location at every such place.
-/

namespace RenderAssets.Spirv

/-- A decoration that gives a target its location. -/
structure Instruction.Locates (instruction : Instruction) (words : List UInt32)
    (target : UInt32) : Prop where
  decorates : instruction.hasOpcode Opcode.decorate = true
  long : 4 ≤ instruction.wordCount
  kind : instruction.word? words 2 = some locationDecoration
  target : instruction.word? words 1 = some target

/-- Decorations that begin at one place have one target: it is the word behind. -/
theorem Instruction.Locates.target_eq {words : List UInt32} {site other : Instruction}
    {target otherTarget : UInt32} (locates : site.Locates words target)
    (otherLocates : other.Locates words otherTarget) (same : site.offset = other.offset) :
    target = otherTarget := by
  have stands := (word?_eq_some_iff.mp locates.target).2.2
  have otherStands := (word?_eq_some_iff.mp otherLocates.target).2.2
  rw [same] at stands
  exact Option.some.inj (stands.symm.trans otherStands)

/-- The location of a slot in a storage class stands at a place. -/
def Slot.LocatedIn (slot : Slot) (storageClass : UInt32) (place : Nat) : Prop :=
  slot.storageClass? = some storageClass ∧ slot.location? = some place

/-- The located places of a storage class are those of its located slots. -/
theorem Slot.mem_located_iff {storageClass : UInt32} {slots : List Slot} {place : Nat} :
    place ∈ located storageClass slots ↔ ∃ slot ∈ slots, slot.LocatedIn storageClass place := by
  simp only [located, List.mem_filterMap, LocatedIn]
  refine exists_congr fun slot => and_congr_right fun _ => ?_
  by_cases same : slot.storageClass? = some storageClass
  · simp only [same, ↓reduceIte, true_and]
  · simp only [same, ↓reduceIte, reduceCtorEq, false_and]

/-- The greater of two words is at least each of them. -/
theorem le_max_both (left right : UInt32) : left ≤ max left right ∧ right ≤ max left right := by
  change left ≤ (if left ≤ right then right else left) ∧
    right ≤ (if left ≤ right then right else left)
  by_cases ordered : left ≤ right
  · simp only [ordered, ↓reduceIte, UInt32.le_refl, and_self]
  · simp only [ordered, ↓reduceIte, UInt32.le_refl, true_and]
    exact UInt32.le_of_lt (UInt32.not_le.mp ordered)

/-- One more decoration may have the highest location. -/
theorem highest_concat (earlier : List LocationDecoration) (last : LocationDecoration) :
    highest (earlier ++ [last]) = max (highest earlier) last.location := by
  simp [highest]

/-- No decoration has a location above the highest. -/
theorem location_le_highest {decorations : List LocationDecoration}
    {decoration : LocationDecoration} (member : decoration ∈ decorations) :
    decoration.location ≤ highest decorations := by
  induction decorations using List.reverseRecOn with
  | nil => exact absurd member List.not_mem_nil
  | append_singleton earlier last inductionHypothesis =>
    rw [highest_concat]
    rcases List.mem_append.mp member with before | same
    · exact UInt32.le_trans (inductionHypothesis before) (le_max_both _ _).1
    · obtain rfl := List.mem_singleton.mp same
      exact (le_max_both _ _).2

/-- What no decoration exceeds, the highest location does not exceed. -/
theorem highest_le {decorations : List LocationDecoration} {bound : UInt32}
    (below : ∀ decoration ∈ decorations, decoration.location ≤ bound) :
    highest decorations ≤ bound := by
  induction decorations using List.reverseRecOn with
  | nil => exact UInt32.zero_le
  | append_singleton earlier last inductionHypothesis =>
    have earlierBelow := inductionHypothesis fun decoration member =>
      below decoration (List.mem_append_left _ member)
    have lastBelow := below last (List.mem_append_right _ List.mem_cons_self)
    rw [highest_concat]
    change (if highest earlier ≤ last.location then last.location else highest earlier) ≤ _
    split
    · exact lastBelow
    · exact earlierBelow

/-- The highest location is that of some decoration, unless there is none. -/
theorem highest_attained (decorations : List LocationDecoration) :
    decorations = [] ∨ ∃ decoration ∈ decorations, decoration.location = highest decorations := by
  induction decorations using List.reverseRecOn with
  | nil => exact .inl rfl
  | append_singleton earlier last inductionHypothesis =>
    right
    rw [highest_concat]
    change ∃ decoration ∈ earlier ++ [last], decoration.location =
      if highest earlier ≤ last.location then last.location else highest earlier
    split
    next => exact ⟨last, List.mem_append_right _ List.mem_cons_self, rfl⟩
    next higher =>
      rcases inductionHypothesis with rfl | ⟨decoration, member, attains⟩
      · exact absurd UInt32.zero_le higher
      · exact ⟨decoration, List.mem_append_left _ member, attains⟩

section Module

variable {words : List UInt32}

/-- A scanned location stands in a decoration behind every entry point. -/
theorem of_mem_scannedLocations {decoration : LocationDecoration}
    (member : decoration ∈ scannedLocations words) :
    ∃ instruction ∈ afterLast (·.hasOpcode Opcode.entryPoint) (Listing.ofWords words).instructions,
      instruction.Locates words decoration.target ∧
        decoration.offset = instruction.offset + 3 ∧
        words[decoration.offset]? = some decoration.location := by
  obtain ⟨instruction, scanned, read⟩ := List.mem_filterMap.mp member
  obtain ⟨_, after, decorates⟩ := Listing.mem_decorations_iff.mp scanned
  obtain ⟨target, kind, location, offset⟩ := LocationDecoration.read?_eq_some_iff.mp read
  obtain ⟨_, long, value⟩ := Instruction.word?_eq_some_iff.mp location
  exact ⟨instruction, after, ⟨decorates, long, kind, target⟩, offset, offset ▸ value⟩

/-- The last location of an id is the offset of a decoration of that id. -/
theorem of_lastLocation? {decorations : List LocationDecoration} {id : UInt32} {place : Nat}
    (last : lastLocation? decorations id = some place) :
    ∃ decoration ∈ decorations, decoration.target = id ∧ decoration.offset = place := by
  obtain ⟨decoration, final, same⟩ := Option.map_eq_some_iff.mp last
  obtain ⟨member, decorates⟩ := List.mem_filter.mp (List.mem_of_getLast? final)
  exact ⟨decoration, member, beq_iff_eq.mp decorates, same⟩

/-- A located slot is the first of an interface id. Its place is that of the last
location of the id, its storage class the last one of the id. -/
theorem of_located {ids : List UInt32} {slot : Slot} {place : Nat}
    (member : slot ∈ slotsOf words ids) (located : slot.location? = some place) :
    slot.id ∈ ids ∧ lastLocation? (scannedLocations words) slot.id = some place ∧
      slot.storageClass? = lastClass? (scannedVariables words) slot.id := by
  have informed : slot ≠ { id := slot.id } := by
    intro empty
    rw [empty] at located
    exact absurd located (Option.some_ne_none _).symm
  obtain ⟨belongs, first⟩ := Slot.eq_first_of_mem_settled (fun _ => rfl) member informed
  refine ⟨belongs, ?_, ?_⟩
  · rw [first] at located
    exact located
  · exact congrArg Slot.storageClass? first

/-- The word at a located place is a location no higher than the highest. -/
theorem location_of_located {ids : List UInt32} {slot : Slot} {place : Nat}
    (member : slot ∈ slotsOf words ids) (located : slot.location? = some place) :
    ∃ location, words[place]? = some location ∧ location ≤ highest (scannedLocations words) := by
  obtain ⟨_, last, _⟩ := of_located member located
  obtain ⟨decoration, scanned, _, rfl⟩ := of_lastLocation? last
  obtain ⟨_, _, _, _, value⟩ := of_mem_scannedLocations scanned
  exact ⟨decoration.location, value, location_le_highest scanned⟩

/-- A slot is located in a decoration of its id, behind every entry point. -/
theorem site_of_slot {ids : List UInt32} {slot : Slot} {place : Nat}
    (member : slot ∈ slotsOf words ids) (located : slot.location? = some place) :
    ∃ site ∈ afterLast (·.hasOpcode Opcode.entryPoint) (Listing.ofWords words).instructions,
      site.Locates words slot.id ∧ place = site.offset + 3 := by
  obtain ⟨_, last, _⟩ := of_located member located
  obtain ⟨decoration, scanned, same, rfl⟩ := of_lastLocation? last
  obtain ⟨site, after, locates, offset, _⟩ := of_mem_scannedLocations scanned
  exact ⟨site, after, same ▸ locates, offset⟩

/-- A located place is that of a location in a decoration behind every entry point. The
target of the decoration is an interface id, with the storage class asked for. -/
theorem site_of_located {ids : List UInt32} {storageClass : UInt32} {place : Nat}
    (member : place ∈ Slot.located storageClass (slotsOf words ids)) :
    ∃ site ∈ afterLast (·.hasOpcode Opcode.entryPoint) (Listing.ofWords words).instructions,
      ∃ target ∈ ids, site.Locates words target ∧
        lastClass? (scannedVariables words) target = some storageClass ∧
        place = site.offset + 3 := by
  obtain ⟨slot, belongs, ⟨classed, located⟩⟩ := Slot.mem_located_iff.mp member
  obtain ⟨listed, _, sameClass⟩ := of_located belongs located
  obtain ⟨site, after, locates, stands⟩ := site_of_slot belongs located
  exact ⟨site, after, slot.id, listed, locates, sameClass ▸ classed, stands⟩

/-- Slots located at one place have one id, since they are located in one decoration. -/
theorem id_eq_of_located {ids otherIds : List UInt32} {slot other : Slot} {place : Nat}
    (member : slot ∈ slotsOf words ids) (otherMember : other ∈ slotsOf words otherIds)
    (located : slot.location? = some place) (otherLocated : other.location? = some place) :
    slot.id = other.id := by
  obtain ⟨site, _, locates, stands⟩ := site_of_slot member located
  obtain ⟨otherSite, _, otherLocates, otherStands⟩ := site_of_slot otherMember otherLocated
  exact locates.target_eq otherLocates (by omega)

/-- Places of different storage classes are different, whichever interfaces they
belong to: one place has one id, and one id has one storage class. -/
theorem located_apart {ids otherIds : List UInt32} {storageClass otherClass : UInt32}
    (different : storageClass ≠ otherClass) {place : Nat}
    (member : place ∈ Slot.located storageClass (slotsOf words ids)) :
    place ∉ Slot.located otherClass (slotsOf words otherIds) := by
  intro otherMember
  obtain ⟨site, _, target, _, locates, classed, stands⟩ := site_of_located member
  obtain ⟨otherSite, _, otherTarget, _, otherLocates, otherClassed, otherStands⟩ :=
    site_of_located otherMember
  obtain rfl := locates.target_eq otherLocates (by omega)
  exact different (Option.some.inj (classed.symm.trans otherClassed))

/-- Before a relocation, every located place holds a location no higher than the
highest of the module. -/
theorem located_bounded {places : List Nat}
    (located : ∀ place ∈ places, ∃ ids storageClass,
      place ∈ Slot.located storageClass (slotsOf words ids)) :
    Relocation.Bounded places ⟨words, highest (scannedLocations words)⟩ := by
  intro place member
  obtain ⟨ids, storageClass, known⟩ := located place member
  obtain ⟨slot, belongs, ⟨_, stands⟩⟩ := Slot.mem_located_iff.mp known
  exact location_of_located belongs stands

end Module

end RenderAssets.Spirv
