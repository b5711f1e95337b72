import Mathlib.Data.List.DropRight
import RenderAssets.Spirv.Listing

/-!
# Searching a cursor read off its listing

A cursor is described by the listing of the words in front of it. Stepping takes
the first listed instruction; searching for an opcode takes the first listed one
that has it and leaves the instructions after that one. Searching until there is
no more yields the listed instructions of the opcode in order. What the cursor
has left to read then are the instructions after the last of them, unless the
listing is truncated: the last search meets the truncation and uses the cursor up.

Everything a listing names is present in the words it was read from, and listed
instructions stand behind each other without overlap.
-/

namespace RenderAssets.Spirv

/-- The instructions after the last one of a kind; all of them if there is none. -/
def afterLast (kind : Instruction → Bool) (instructions : List Instruction) : List Instruction :=
  instructions.rtakeWhile fun instruction => !kind instruction

/-- Without an instruction of the kind, nothing is left out. -/
theorem afterLast_of_none (kind : Instruction → Bool) (instructions : List Instruction)
    (absent : ∀ instruction ∈ instructions, kind instruction = false) :
    afterLast kind instructions = instructions := by
  apply List.rtakeWhile_eq_self_iff.mpr
  intro instruction member
  simp only [absent instruction member, Bool.not_false]

/-- What stands before an instruction of the kind never comes after the last one. -/
theorem afterLast_append_cons (kind : Instruction → Bool) (before later : List Instruction)
    (last : Instruction) (same : kind last = true) :
    afterLast kind (before ++ last :: later) = afterLast kind later := by
  simp only [afterLast, List.rtakeWhile, List.reverse_append, List.reverse_cons,
    List.append_assoc, List.singleton_append]
  congr 1
  induction later.reverse with
  | nil => simp [same]
  | cons first rest inductionHypothesis =>
    simp only [List.cons_append, List.takeWhile_cons, inductionHypothesis]

/-- Instructions after the last one of a kind are instructions of the list. -/
theorem mem_of_mem_afterLast {kind : Instruction → Bool} {instructions : List Instruction}
    {instruction : Instruction} (member : instruction ∈ afterLast kind instructions) :
    instruction ∈ instructions :=
  (List.rtakeWhile_suffix _ _).subset member

/-- An instruction comes after the last one of a kind when neither it nor anything
behind it is of that kind. -/
theorem mem_afterLast_iff {kind : Instruction → Bool} {instructions : List Instruction}
    {instruction : Instruction} :
    instruction ∈ afterLast kind instructions ↔
      ∃ before later, instructions = before ++ instruction :: later ∧
        kind instruction = false ∧ ∀ behind ∈ later, kind behind = false := by
  constructor
  · intro member
    have none : ∀ behind ∈ afterLast kind instructions, kind behind = false := by
      intro behind left
      have passed := List.mem_rtakeWhile_imp left
      exact Bool.not_eq_true' _ ▸ passed
    obtain ⟨skipped, same⟩ := List.rtakeWhile_suffix (fun other => !kind other) instructions
    obtain ⟨before, later, split⟩ := List.append_of_mem member
    refine ⟨skipped ++ before, later, ?_, none instruction member, ?_⟩
    · rw [List.append_assoc, ← split]
      exact same.symm
    · intro behind after
      apply none
      rw [split]
      exact List.mem_append_right before (List.mem_cons_of_mem instruction after)
  · rintro ⟨before, later, rfl, own, behind⟩
    simp only [afterLast, List.rtakeWhile, List.reverse_append, List.reverse_cons,
      List.mem_reverse]
    rw [List.takeWhile_append_of_pos]
    · simp
    · intro other member
      rcases List.mem_append.mp member with after | same
      · simp only [behind other (List.mem_reverse.mp after), Bool.not_false]
      · simp only [List.mem_singleton.mp same, own, Bool.not_false]

/-- Leaving out up to the last of one kind and then of another is leaving out up
to the last of either. Whichever of the two stands later decides. -/
theorem afterLast_afterLast (kind other : Instruction → Bool) (instructions : List Instruction) :
    afterLast other (afterLast kind instructions) =
      afterLast (fun instruction => kind instruction || other instruction) instructions := by
  simp only [afterLast, List.rtakeWhile, List.reverse_reverse, List.takeWhile_takeWhile]
  congr 2
  funext instruction
  cases kind instruction <;> cases other instruction <;> rfl

namespace Instruction

/-- An instruction stands in words when its first word does and declares it, and
all its words fit. -/
structure StandsIn (instruction : Instruction) (words : List UInt32) : Prop where
  declared : ∃ first, words[instruction.offset]? = some first ∧
    instruction.opcode = declaredOpcode first ∧ instruction.wordCount = declaredCount first
  positive : 0 < instruction.wordCount
  fits : instruction.stop ≤ words.length

end Instruction

namespace Listing

/-- What a listing leaves once every instruction of a kind has been searched for.
The search that fails runs into a truncation, if there is one. -/
def following (kind : Instruction → Bool) (listing : Listing) : Listing :=
  if listing.truncated then ⟨[], false⟩ else ⟨afterLast kind listing.instructions, false⟩

end Listing

namespace Cursor

/-- A cursor as every run from the start of a module leaves it: inside the words,
and at their end once it has met a truncation. -/
structure Sound (cursor : Cursor) : Prop where
  inside : cursor.position ≤ cursor.words.length
  spent : cursor.truncated = true → cursor.position = cursor.words.length

/-- The cursor just past an instruction. -/
def past (cursor : Cursor) (instruction : Instruction) : Cursor :=
  { cursor with position := instruction.stop }

/-- The start of a module is a sound cursor. -/
theorem start_sound (words : List UInt32) : (start words).Sound := by
  refine ⟨Nat.min_le_right _ _, ?_⟩
  intro truncated
  exact Bool.noConfusion truncated

/-- Reading a module to its end yields its listing, and remembers whether that is
truncated. -/
theorem readAll_start (words : List UInt32) :
    (start words).readAll.1 = (Listing.ofWords words).instructions ∧
      (start words).readAll.2.truncated = (Listing.ofWords words).truncated := by
  have listed : (start words).listing = Listing.ofWords words := rfl
  rw [readAll_eq_listing (start words) (start_sound words).inside, finished, listed]
  by_cases broken : (Listing.ofWords words).truncated = true
  · simp only [broken, ↓reduceIte, exhaust, and_self]
  · simp only [broken, Bool.false_eq_true, ↓reduceIte, start, and_self]

/-- A cursor inside its words steps to the first listed instruction. That one
stands at the cursor, and the rest of the listing lies past it. -/
theorem next?_of_cons {cursor : Cursor} {first : Instruction} {rest : List Instruction}
    (inside : cursor.position ≤ cursor.words.length)
    (listed : cursor.listing.instructions = first :: rest) :
    cursor.next? = (some first, cursor.past first) ∧
      (cursor.past first).listing = ⟨rest, cursor.listing.truncated⟩ ∧
      first.offset = cursor.position ∧ first.StandsIn cursor.words := by
  cases present : cursor.words[cursor.position]? with
  | none =>
    have atEnd : cursor.words.length ≤ cursor.position := List.getElem?_eq_none_iff.mp present
    rw [listing_of_end cursor atEnd] at listed
    exact absurd listed (List.cons_ne_nil _ _).symm
  | some word =>
    by_cases admitted : cursor.Admits word
    · have split := listing_of_admits cursor word present admitted
      rw [split] at listed
      obtain ⟨rfl, rfl⟩ := List.cons.inj listed
      refine ⟨?_, ?_, rfl, ⟨word, present, rfl, rfl⟩, admitted.1, ?_⟩
      · simp only [next?, present, admitted, ↓reduceIte]
        rfl
      · rw [split]
        rfl
      · have fits := admitted.2
        simp only [remaining] at fits
        simp only [Instruction.stop, announced]
        omega
    · rw [listing_of_not_admits cursor word present admitted] at listed
      exact absurd listed (List.cons_ne_nil _ _).symm

/-- Past an instruction that stands in its words, a cursor is still inside them. -/
theorem past_inside {cursor : Cursor} {instruction : Instruction}
    (stands : instruction.StandsIn cursor.words) :
    (cursor.past instruction).position ≤ (cursor.past instruction).words.length :=
  stands.fits

/-- A cursor inside its words with nothing listed does not step, and is used up. -/
theorem next?_of_nil {cursor : Cursor} (inside : cursor.position ≤ cursor.words.length)
    (listed : cursor.listing.instructions = []) : cursor.next? = (none, cursor.finished) := by
  have steps := readAll_eq_listing cursor inside
  rw [listed, readAll] at steps
  split at steps
  next stopped stepped =>
    rw [stepped, (Prod.mk.inj steps).2]
  next stepped =>
    exact absurd (Prod.mk.inj steps).1 (List.cons_ne_nil _ _)

/-- A cursor at the end of its words does not step, and stays there. -/
theorem next?_at_end {cursor : Cursor} (atEnd : cursor.position = cursor.words.length) :
    cursor.next? = (none, cursor) := by
  have absent : cursor.words[cursor.position]? = none :=
    List.getElem?_eq_none_iff.mpr (Nat.le_of_eq atEnd.symm)
  rw [next?, absent]

/-- A cursor that has read everything is at the end of the same words. -/
theorem finished_at_end (cursor : Cursor) :
    cursor.finished.words = cursor.words ∧
      cursor.finished.position = cursor.finished.words.length := by
  rw [finished]
  split
  next => exact ⟨rfl, rfl⟩
  next => exact ⟨rfl, rfl⟩

/-- Past a listed instruction, the instructions behind it are listed. Induction on
those before it: stepping over one of them keeps the rest of the listing. -/
theorem listing_past {cursor : Cursor} {before later : List Instruction} {found : Instruction}
    (inside : cursor.position ≤ cursor.words.length)
    (listed : cursor.listing.instructions = before ++ found :: later) :
    (cursor.past found).listing = ⟨later, cursor.listing.truncated⟩ := by
  induction before generalizing cursor with
  | nil => exact (next?_of_cons inside listed).2.1
  | cons first rest inductionHypothesis =>
    obtain ⟨_, remains, _, stands⟩ := next?_of_cons inside listed
    have further : (cursor.past first).listing.instructions = rest ++ found :: later := by
      rw [remains]
      rfl
    have onward := inductionHypothesis (past_inside stands) further
    rw [remains] at onward
    exact onward

/-- Every listed instruction stands in the words, from the cursor on. -/
theorem stands_of_listed {cursor : Cursor} (inside : cursor.position ≤ cursor.words.length)
    {instruction : Instruction} (member : instruction ∈ cursor.listing.instructions) :
    instruction.StandsIn cursor.words ∧ cursor.position ≤ instruction.offset := by
  generalize listed : cursor.listing.instructions = instructions at member
  induction instructions generalizing cursor with
  | nil => exact absurd member List.not_mem_nil
  | cons first rest inductionHypothesis =>
    obtain ⟨_, remains, offset, stands⟩ := next?_of_cons inside listed
    rcases List.mem_cons.mp member with rfl | later
    · exact ⟨stands, Nat.le_of_eq offset.symm⟩
    · have further : (cursor.past first).listing.instructions = rest := by rw [remains]
      obtain ⟨standsLater, behind⟩ :=
        inductionHypothesis (past_inside stands) further later
      have advance : cursor.position ≤ (cursor.past first).position := by
        simp only [past, Instruction.stop, offset]
        omega
      exact ⟨standsLater, Nat.le_trans advance behind⟩

/-- Listed instructions do not overlap: each ends before the later ones begin. -/
theorem listing_ordered {cursor : Cursor} (inside : cursor.position ≤ cursor.words.length) :
    cursor.listing.instructions.Pairwise fun earlier later => earlier.stop ≤ later.offset := by
  generalize listed : cursor.listing.instructions = instructions
  induction instructions generalizing cursor with
  | nil => exact List.Pairwise.nil
  | cons first rest inductionHypothesis =>
    obtain ⟨_, remains, _, stands⟩ := next?_of_cons inside listed
    have further : (cursor.past first).listing.instructions = rest := by rw [remains]
    refine List.pairwise_cons.mpr
      ⟨?_, inductionHypothesis (past_inside stands) further⟩
    intro later member
    rw [← further] at member
    exact (stands_of_listed (past_inside stands) member).2

/-- Listed instructions begin one behind the other: none is empty, and none begins before
the one in front of it ends. -/
theorem listing_increasing {cursor : Cursor}
    (inside : cursor.position ≤ cursor.words.length) :
    cursor.listing.instructions.Pairwise fun earlier later => earlier.offset < later.offset := by
  apply List.Pairwise.imp_of_mem _ (listing_ordered inside)
  intro earlier later member _ ordered
  have positive := (stands_of_listed inside member).1.positive
  simp only [Instruction.stop] at ordered
  omega

/-- An instruction that stands in the words where the cursor does is listed first. -/
theorem listing_of_stands {cursor : Cursor} {first : Instruction}
    (stands : first.StandsIn cursor.words) (here : first.offset = cursor.position) :
    cursor.listing =
      ⟨first :: (cursor.past first).listing.instructions,
        (cursor.past first).listing.truncated⟩ := by
  obtain ⟨word, present, opcode, count⟩ := stands.declared
  rw [here] at present
  have fits := stands.fits
  simp only [Instruction.stop, here] at fits
  have admitted : cursor.Admits word := by
    refine ⟨count ▸ stands.positive, ?_⟩
    rw [← count, remaining]
    omega
  have announces : cursor.announced word = first := by
    cases first
    simp_all only [announced]
  have listed := listing_of_admits cursor word present admitted
  rw [announces] at listed
  rw [listed, past, Instruction.stop, here]
  rfl

/-- Words that differ only behind the first words of listed instructions are listed
alike. Induction on the listing: the first instruction begins at the cursor, where
the words agree, and a word that differs past it belongs to a later one. -/
theorem listing_of_agree {cursor : Cursor} {after : List UInt32}
    (inside : cursor.position ≤ cursor.words.length)
    (sameLength : after.length = cursor.words.length)
    (operand : ∀ place, cursor.position ≤ place → after[place]? ≠ cursor.words[place]? →
      ∃ instruction ∈ cursor.listing.instructions,
        instruction.offset < place ∧ place < instruction.stop) :
    ({ cursor with words := after } : Cursor).listing = cursor.listing := by
  generalize listed : cursor.listing.instructions = instructions at operand
  induction instructions generalizing cursor with
  | nil =>
    have same : after.drop cursor.position = cursor.words.drop cursor.position := by
      apply List.ext_getElem?
      intro index
      rw [List.getElem?_drop, List.getElem?_drop]
      by_contra differ
      obtain ⟨_, none, _⟩ := operand _ (Nat.le_add_right _ _) differ
      exact absurd none List.not_mem_nil
    simp only [listing, same]
  | cons first rest inductionHypothesis =>
    obtain ⟨_, remains, offset, stands⟩ := next?_of_cons inside listed
    have positive := stands.positive
    have further : (cursor.past first).listing.instructions = rest := by rw [remains]
    have standsAfter : first.StandsIn ({ cursor with words := after } : Cursor).words := by
      refine ⟨?_, positive, sameLength ▸ stands.fits⟩
      obtain ⟨word, present, declared⟩ := stands.declared
      refine ⟨word, ?_, declared⟩
      rw [← present, offset]
      by_contra differ
      obtain ⟨instruction, member, behind, _⟩ := operand _ (Nat.le_refl _) differ
      rw [← listed] at member
      exact absurd (stands_of_listed inside member).2 (Nat.not_le.mpr behind)
    have onward : ({ cursor.past first with words := after } : Cursor).listing =
        (cursor.past first).listing := by
      refine inductionHypothesis (past_inside stands) sameLength further ?_
      intro place beyond differ
      simp only [past, Instruction.stop] at beyond
      obtain ⟨instruction, member, behind, before⟩ := operand place (by omega) differ
      rcases List.mem_cons.mp member with rfl | later
      · exact absurd before (Nat.not_lt.mpr beyond)
      · exact ⟨instruction, later, behind, before⟩
    rw [listing_of_stands standsAfter offset, listing_of_stands stands offset, ← onward]
    rfl

/-- A search steps once and goes on from there. -/
theorem search_step (opcode : UInt32) (cursor : Cursor) :
    cursor.search opcode = match cursor.next? with
      | (none, stopped) => (none, stopped)
      | (some instruction, advanced) =>
        if instruction.hasOpcode opcode then (some instruction, advanced)
        else advanced.search opcode := by
  rw [search]
  split
  next stopped stepped => rw [stepped]
  next instruction advanced stepped => rw [stepped]

/-- A search takes the first listed instruction that has the opcode, and without
one reads everything. By induction on what is listed. -/
theorem search_eq (opcode : UInt32) {cursor : Cursor}
    (inside : cursor.position ≤ cursor.words.length) :
    cursor.search opcode =
      match cursor.listing.instructions.find? (·.hasOpcode opcode) with
      | some found => (some found, cursor.past found)
      | none => (none, cursor.finished) := by
  generalize listed : cursor.listing.instructions = instructions
  induction instructions generalizing cursor with
  | nil => rw [search_step, next?_of_nil inside listed, List.find?_nil]
  | cons first rest inductionHypothesis =>
    obtain ⟨steps, remains, _, stands⟩ := next?_of_cons inside listed
    rw [search_step, steps]
    cases same : first.hasOpcode opcode with
    | true => simp only [List.find?_cons, same, ↓reduceIte]
    | false =>
      have further : (cursor.past first).listing.instructions = rest := by rw [remains]
      have ending : (cursor.past first).finished = cursor.finished := by
        unfold finished
        rw [remains]
        rfl
      simp only [Bool.false_eq_true, ↓reduceIte, List.find?_cons, same,
        inductionHypothesis (past_inside stands) further, ending]
      rfl

/-- A committed search takes the first listed instruction that has the opcode. A
failed one uses the cursor up if the listing is truncated, and else leaves it. -/
theorem find?_eq (opcode : UInt32) {cursor : Cursor} (sound : cursor.Sound) :
    cursor.find? opcode =
      match cursor.listing.instructions.find? (·.hasOpcode opcode) with
      | some found => (some found, cursor.past found)
      | none => (none, if cursor.listing.truncated then cursor.exhaust else cursor) := by
  rw [find?, search_eq opcode sound.inside]
  cases cursor.listing.instructions.find? (·.hasOpcode opcode) with
  | some found => rfl
  | none =>
    simp only [finished, Prod.mk.injEq, true_and]
    by_cases broken : cursor.listing.truncated = true
    · simp only [exhaust, broken, ↓reduceIte]
    · by_cases met : cursor.truncated = true
      · -- A cursor that met a truncation before stands at the end, so reading on moves nothing.
        simp only [broken, met, ← sound.spent met, Bool.false_eq_true, ↓reduceIte]
        rw [← met]
      · simp [broken, met]

/-- Stepping keeps the words. -/
theorem words_next? (cursor : Cursor) : cursor.next?.2.words = cursor.words := by
  rw [next?]
  split
  next => rfl
  next => split <;> rfl

/-- A search keeps the words. -/
theorem words_search (opcode : UInt32) (cursor : Cursor) :
    (cursor.search opcode).2.words = cursor.words := by
  fun_induction search opcode cursor with
  | case1 cursor stopped stepped =>
    have kept := words_next? cursor
    rwa [stepped] at kept
  | case2 cursor instruction advanced stepped same =>
    have kept := words_next? cursor
    rwa [stepped] at kept
  | case3 cursor instruction advanced stepped different inductionHypothesis =>
    have kept := words_next? cursor
    rw [stepped] at kept
    rw [inductionHypothesis, kept]

/-- Finding an instruction keeps the words. -/
theorem words_find? {opcode : UInt32} {cursor advanced : Cursor} {instruction : Instruction}
    (found : cursor.find? opcode = (some instruction, advanced)) :
    advanced.words = cursor.words := by
  have kept := words_search opcode cursor
  rw [find?] at found
  cases searched : cursor.search opcode with
  | mk outcome stopped =>
    rw [searched] at found kept
    cases outcome with
    | none => exact absurd (Prod.mk.inj found).1 (Option.some_ne_none _).symm
    | some _ =>
      obtain ⟨_, rfl⟩ := Prod.mk.inj found
      exact kept

/-- Searching for all instructions of an opcode finds the next one and goes on from
there. -/
theorem findAll_step (opcode : UInt32) (cursor : Cursor) :
    cursor.findAll opcode = match cursor.find? opcode with
      | (none, stopped) => ([], stopped)
      | (some instruction, advanced) =>
        (instruction :: (advanced.findAll opcode).1, (advanced.findAll opcode).2) := by
  rw [findAll]
  split
  next stopped searched => rw [searched]
  next instruction advanced searched => rw [searched]

/-- Finding an instruction keeps a cursor sound. -/
theorem past_sound {cursor : Cursor} (sound : cursor.Sound) {instruction : Instruction}
    (member : instruction ∈ cursor.listing.instructions) : (cursor.past instruction).Sound := by
  refine ⟨(stands_of_listed sound.inside member).1.fits, ?_⟩
  intro truncated
  have atEnd := sound.spent truncated
  rw [listing_of_end cursor (Nat.le_of_eq atEnd.symm)] at member
  exact absurd member List.not_mem_nil

/-- A cursor that is used up is sound and lists nothing. -/
theorem exhaust_spent (cursor : Cursor) :
    cursor.exhaust.Sound ∧ cursor.exhaust.listing = ⟨[], false⟩ :=
  ⟨⟨Nat.le_refl _, fun _ => rfl⟩, listing_of_end cursor.exhaust (Nat.le_refl _)⟩

/-- Searching for an opcode until there is no more yields the listed instructions
that have it, in order, and leaves what follows the last of them.

Induction on the words left to read. A search that succeeds splits the listing at
the found instruction: nothing before it has the opcode, and the rest is searched
from past it. -/
theorem findAll_spec (opcode : UInt32) {cursor : Cursor} (sound : cursor.Sound) :
    (cursor.findAll opcode).1 = cursor.listing.instructions.filter (·.hasOpcode opcode) ∧
      (cursor.findAll opcode).2.Sound ∧
      (cursor.findAll opcode).2.words = cursor.words ∧
      (cursor.findAll opcode).2.listing = cursor.listing.following (·.hasOpcode opcode) := by
  fun_induction findAll opcode cursor with
  | case1 cursor stopped searched =>
    rw [find?_eq opcode sound] at searched
    split at searched
    next found => exact absurd (Prod.mk.inj searched).1 (Option.some_ne_none _)
    next absent =>
      obtain rfl := (Prod.mk.inj searched).2
      have none : ∀ instruction ∈ cursor.listing.instructions,
          instruction.hasOpcode opcode = false := by
        intro instruction member
        exact Bool.eq_false_iff.mpr (List.find?_eq_none.mp absent instruction member)
      have filtered : cursor.listing.instructions.filter (·.hasOpcode opcode) = [] := by
        apply List.filter_eq_nil_iff.mpr
        intro instruction member
        simp only [none instruction member, Bool.false_eq_true, not_false_eq_true]
      obtain ⟨exhaustSound, exhaustListing⟩ := exhaust_spent cursor
      by_cases broken : cursor.listing.truncated = true
      · simp only [Listing.following, broken, ↓reduceIte]
        exact ⟨filtered.symm, exhaustSound, rfl, exhaustListing⟩
      · simp only [Listing.following, broken, Bool.false_eq_true, ↓reduceIte,
          afterLast_of_none _ _ none, true_and]
        refine ⟨filtered.symm, sound, ?_⟩
        rw [← Bool.eq_false_iff.mpr broken]
  | case2 cursor found advanced searched rest stopped later inductionHypothesis =>
    rw [find?_eq opcode sound] at searched
    split at searched
    next instruction present =>
      obtain ⟨rfl, rfl⟩ := Prod.mk.inj searched |>.imp Option.some.inj id
      obtain ⟨same, before, after, listed, absent⟩ := List.find?_eq_some_iff_append.mp present
      have member : instruction ∈ cursor.listing.instructions :=
        List.mem_of_find?_eq_some present
      have remains := listing_past sound.inside listed
      obtain ⟨yielded, soundLater, sameWords, leaves⟩ :=
        inductionHypothesis (past_sound sound member)
      rw [later, remains] at yielded leaves
      rw [later] at soundLater sameWords
      have skipped : before.filter (·.hasOpcode opcode) = [] := by
        apply List.filter_eq_nil_iff.mpr
        intro earlier earlierMember
        simpa using absent earlier earlierMember
      refine ⟨?_, soundLater, sameWords, leaves.trans ?_⟩
      · simp only [listed, List.filter_append, skipped, List.nil_append, List.filter_cons, same,
          ↓reduceIte]
        exact congrArg (instruction :: ·) yielded
      · rw [Listing.following, Listing.following, listed,
          afterLast_append_cons (·.hasOpcode opcode) before after instruction same]
    next => exact absurd (Prod.mk.inj searched).1 (Option.some_ne_none _).symm

end Cursor

end RenderAssets.Spirv
