import Mathlib.Data.List.Perm.Subperm
import RenderAssets.Proofs.Spirv.LocatedSlots

/-!
# What separation leaves alone

Separation writes locations of vertex outputs and of fragment inputs, and nothing
else. A word that differs afterwards is the location in a decoration behind every
entry point, whose target an interface lists and the variables give the storage
class in question. At most two words differ for each located vertex output.

Everything else follows from that, since instructions do not overlap and none begins
inside the header. Neither a sound module nor room for fresh locations is asked for.
-/

namespace RenderAssets.Spirv

/-- An id whose location may move: an output of the vertex interface or an input of
the fragment interface, by the variable of the id that is scanned last. -/
def Relocatable (words : List UInt32) (target : UInt32) : Prop :=
  (target ∈ interfaceOf words .vertex ∧
      lastClass? (scannedVariables words) target = some outputClass) ∨
    (target ∈ interfaceOf words .fragment ∧
      lastClass? (scannedVariables words) target = some inputClass)

/-- The places of some words that hold another word afterwards. -/
def changedPlaces (words after : List UInt32) : List Nat :=
  (List.range words.length).filter fun place => after[place]? != words[place]?

/-- What two sets of words have in common, where the instructions are those of the
first: they differ in locations of relocatable ids only. -/
structure LocationFrame (words : List UInt32) (instructions : List Instruction)
    (after : List UInt32) : Prop where
  length_eq : after.length = words.length
  /-- A word that differs is the location in a decoration behind every entry point. -/
  sites : ∀ place, after[place]? ≠ words[place]? →
    ∃ site ∈ afterLast (·.hasOpcode Opcode.entryPoint) instructions,
      ∃ target, site.Locates words target ∧ Relocatable words target ∧ place = site.offset + 3
  /-- The header and the three words behind it are the same. -/
  header : ∀ place < 8, after[place]? = words[place]?
  /-- Every word of an instruction but the location in a decoration is the same: its
  first word with the opcode, its ids, and whatever else it has. -/
  otherWords : ∀ instruction ∈ instructions, ∀ index < instruction.wordCount,
    (index = 3 → ∀ target, ¬ instruction.Locates words target) →
      after[instruction.offset + index]? = words[instruction.offset + index]?
  /-- The location of an id in neither interface is the same. -/
  unlisted : ∀ site ∈ instructions, ∀ target, site.Locates words target →
    (∀ stage, target ∉ interfaceOf words stage) →
      after[site.offset + 3]? = words[site.offset + 3]?
  /-- The location of an output that the vertex interface does not list is the same. -/
  fragmentOutputs : ∀ site ∈ instructions, ∀ target, site.Locates words target →
    lastClass? (scannedVariables words) target = some outputClass →
    target ∉ interfaceOf words .vertex →
      after[site.offset + 3]? = words[site.offset + 3]?
  /-- Without two interfaces no word differs. -/
  refused : StageInterfaces.scan? words = none → after = words
  /-- For each located vertex output, at most two words differ. -/
  few : ∀ interfaces, StageInterfaces.scan? words = some interfaces →
    (changedPlaces words after).length ≤ 2 * (Slot.located outputClass interfaces.vertex).length

section Module

variable {words : List UInt32}

/-- What separation writes: at most two places for each located vertex output, each of
them located for a vertex output or a fragment input. A refused module is not written. -/
theorem separateOutputs_touches (words : List UInt32) :
    (separateOutputs words).words.length = words.length ∧
      ∃ touched : List Nat,
        (∀ interfaces, StageInterfaces.scan? words = some interfaces →
          touched.length ≤ 2 * (Slot.located outputClass interfaces.vertex).length) ∧
        (∀ place ∈ touched,
          place ∈ Slot.located outputClass (slotsOf words (interfaceOf words .vertex)) ∨
            place ∈ Slot.located inputClass (slotsOf words (interfaceOf words .fragment))) ∧
        ∀ place, place ∉ touched → (separateOutputs words).words[place]? = words[place]? := by
  rw [separateOutputs]
  cases scanned : StageInterfaces.scan? words with
  | none =>
    refine ⟨rfl, [], ?_, fun _ none => absurd none List.not_mem_nil, fun _ _ => rfl⟩
    exact fun _ _ => Nat.zero_le _
  | some interfaces =>
    obtain ⟨_, rfl⟩ := (scan?_eq_some_iff interfaces).mp scanned
    simp only [Relocation.ofInterfaces]
    obtain ⟨touched, few, known, unwritten⟩ := Relocation.run_touches
      { words, highestLocation := (StageInterfaces.ofListed words).highestLocation }
      (Slot.located outputClass (StageInterfaces.ofListed words).vertex)
    refine ⟨Relocation.length_run _ _, touched, ?_, known, unwritten⟩
    intro interfaces same
    obtain rfl := Option.some.inj same
    exact few

/-- A word that differs after separation is the location of a relocatable id. -/
theorem site_of_changed {place : Nat}
    (changed : (separateOutputs words).words[place]? ≠ words[place]?) :
    ∃ site ∈ afterLast (·.hasOpcode Opcode.entryPoint) (Listing.ofWords words).instructions,
      ∃ target, site.Locates words target ∧ Relocatable words target ∧
        place = site.offset + 3 := by
  obtain ⟨_, touched, _, known, unwritten⟩ := separateOutputs_touches words
  have member : place ∈ touched := by
    by_contra absent
    exact changed (unwritten place absent)
  rcases known place member with output | input
  · obtain ⟨site, after, target, listed, locates, classed, stands⟩ := site_of_located output
    exact ⟨site, after, target, locates, Or.inl ⟨listed, classed⟩, stands⟩
  · obtain ⟨site, after, target, listed, locates, classed, stands⟩ := site_of_located input
    exact ⟨site, after, target, locates, Or.inr ⟨listed, classed⟩, stands⟩

/-- A location that differs after separation is that of a relocatable id, whichever
decoration it is looked at in: the target stands two words before it. -/
theorem relocatable_of_changed {site : Instruction} {target : UInt32}
    (locates : site.Locates words target)
    (changed : (separateOutputs words).words[site.offset + 3]? ≠ words[site.offset + 3]?) :
    Relocatable words target := by
  obtain ⟨other, _, otherTarget, otherLocates, relocatable, same⟩ := site_of_changed changed
  obtain rfl := locates.target_eq otherLocates (by omega)
  exact relocatable

/-- Two instructions of a module that have a word in common are one instruction. -/
theorem eq_of_common_place {instruction other : Instruction}
    (member : instruction ∈ (Listing.ofWords words).instructions)
    (otherMember : other ∈ (Listing.ofWords words).instructions)
    (before : instruction.offset < other.stop) (behind : other.offset < instruction.stop) :
    instruction = other := by
  have ordered : (Listing.ofWords words).instructions.Pairwise
      fun earlier later => earlier.stop ≤ later.offset :=
    Cursor.listing_ordered (Cursor.start_sound words).inside
  have apart : ∀ ⦃first⦄, first ∈ (Listing.ofWords words).instructions →
      ∀ ⦃second⦄, second ∈ (Listing.ofWords words).instructions →
        first.offset < second.stop → second.offset < first.stop → first = second := by
    apply List.Pairwise.forall_of_forall_of_flip
    · exact fun _ _ _ _ => rfl
    · exact ordered.imp fun below _ inside => absurd inside (Nat.not_lt.mpr below)
    · exact ordered.imp fun below inside _ => absurd inside (Nat.not_lt.mpr below)
  exact apart member otherMember before behind

/-- A word of an instruction that differs after separation is the location in it. -/
theorem location_of_changed {instruction : Instruction}
    (member : instruction ∈ (Listing.ofWords words).instructions) {index : Nat}
    (inside : index < instruction.wordCount)
    (changed : (separateOutputs words).words[instruction.offset + index]? ≠
      words[instruction.offset + index]?) :
    index = 3 ∧ ∃ target, instruction.Locates words target := by
  obtain ⟨site, siteMember, target, locates, _, same⟩ := site_of_changed changed
  have long := locates.long
  have one : instruction = site := by
    apply eq_of_common_place member (mem_of_mem_afterLast siteMember)
    all_goals
      simp only [Instruction.stop]
      omega
  subst one
  exact ⟨by omega, target, locates⟩

/-- A word that differs after separation stands three words or more behind the header. -/
theorem behind_header_of_changed {place : Nat}
    (changed : (separateOutputs words).words[place]? ≠ words[place]?) :
    headerWordCount + 3 ≤ place := by
  obtain ⟨site, member, target, locates, _, rfl⟩ := site_of_changed changed
  obtain ⟨stands, behind⟩ := stands_of_mem (mem_of_mem_afterLast member)
  have long := locates.long
  have fits := stands.fits
  simp only [Instruction.stop] at fits
  omega

/-- A list without repetition, all of whose entries occur in another list, is no
longer than that one; so few places are written means that few words differ. -/
theorem length_changedPlaces_le {after : List UInt32} {touched : List Nat}
    (unwritten : ∀ place, place ∉ touched → after[place]? = words[place]?) :
    (changedPlaces words after).length ≤ touched.length := by
  have written : changedPlaces words after ⊆ touched := by
    intro place member
    by_contra absent
    obtain ⟨_, changed⟩ := List.mem_filter.mp member
    exact absurd (unwritten place absent) (bne_iff_ne.mp changed)
  have once : (changedPlaces words after).Nodup := List.nodup_range.filter _
  exact (List.subperm_of_subset once written).length_le

/-- Separation keeps the frame of a module, whatever the words are: the instructions
are those read one after the other from the start until there is none.

A step writes an output and at most one input, so a run writes few places. Each of them
is located, hence the location in a decoration of a relocatable id. What the frame says
of other words follows, since an instruction with a written word is that decoration. -/
theorem separateOutputs_frame (words : List UInt32) :
    LocationFrame words (Cursor.start words).readAll.1 (separateOutputs words).words := by
  have steps := Cursor.readAll_eq_listing (.start words) (Cursor.start_sound words).inside
  have listed : (Cursor.start words).readAll.1 = (Listing.ofWords words).instructions := by
    rw [steps]
    rfl
  obtain ⟨sameLength, touched, few, _, unwritten⟩ := separateOutputs_touches words
  rw [listed]
  constructor
  case length_eq => exact sameLength
  case sites => exact fun place changed => site_of_changed changed
  case header =>
    intro place inside
    by_contra changed
    have behind : 5 + 3 ≤ place := behind_header_of_changed changed
    omega
  case otherWords =>
    intro instruction member index inside other
    by_contra changed
    obtain ⟨third, target, locates⟩ := location_of_changed member inside changed
    exact other third target locates
  case unlisted =>
    intro site _ target locates absent
    by_contra changed
    rcases relocatable_of_changed locates changed with output | input
    · exact absent .vertex output.1
    · exact absent .fragment input.1
  case fragmentOutputs =>
    intro site _ target locates classed absent
    by_contra changed
    rcases relocatable_of_changed locates changed with output | input
    · exact absent output.1
    · have sameClass := Option.some.inj (classed.symm.trans input.2)
      exact absurd sameClass (by decide)
  case refused =>
    intro none
    rw [separateOutputs, none]
  case few =>
    intro interfaces scanned
    exact (length_changedPlaces_le unwritten).trans (few interfaces scanned)

end Module

end RenderAssets.Spirv
