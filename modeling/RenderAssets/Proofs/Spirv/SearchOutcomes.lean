import RenderAssets.Proofs.Spirv.ModulePartition
import RenderAssets.Proofs.Spirv.SessionRuns

/-!
# A search finds what stepping would come to

A search looks at a copy of the cursor, and the cursor takes over what has become of the
copy or stays as it is. So the outcome of a search is told by stepping alone. Either
stepping comes to an instruction with the opcode; then the first of these is found, and
the cursor is where stepping past it leads. Or it never does. Then the cursor stays, if the
words that are left can all be read, and is used up for good, if they break off somewhere.

This is so of every cursor there can be. Cursors come about by stepping, searching and
copying, with any number of them at work on the same module, and each was reached by
reading from the start.
-/

namespace RenderAssets.Spirv

/-- The cursors on a module that there can be at the same time. Every one may be stepped,
searched with or copied, and the others stay where they are. -/
inductive AtWork (words : List UInt32) : List Cursor → Prop where
  /-- At first there is one, in front of the first instruction. -/
  | start : AtWork words [.start words]
  /-- One of them is stepped. -/
  | next (before : List Cursor) (cursor : Cursor) (after : List Cursor)
      (earlier : AtWork words (before ++ cursor :: after)) :
      AtWork words (before ++ cursor.next?.2 :: after)
  /-- One of them is searched with. -/
  | find (opcode : UInt32) (before : List Cursor) (cursor : Cursor) (after : List Cursor)
      (earlier : AtWork words (before ++ cursor :: after)) :
      AtWork words (before ++ (cursor.find? opcode).2 :: after)
  /-- One of them is copied. -/
  | copy (before : List Cursor) (cursor : Cursor) (after : List Cursor)
      (earlier : AtWork words (before ++ cursor :: after)) :
      AtWork words (cursor :: before ++ cursor :: after)

/-- Every cursor at work was reached by reading from the start. Induction on how the cursors
came about: a step or a search reads on from where its cursor was, and the others stay. -/
theorem AtWork.reached {words : List UInt32} {cursors : List Cursor}
    (atWork : AtWork words cursors) :
    ∀ cursor ∈ cursors, ∃ found, (Cursor.start words).Reads found cursor := by
  induction atWork with
  | start =>
    exact List.forall_mem_singleton.mpr ⟨[], Cursor.reads_nothing (Cursor.start_sound words)⟩
  | next before cursor after earlier inductionHypothesis =>
    simp only [List.forall_mem_append, List.forall_mem_cons] at inductionHypothesis ⊢
    obtain ⟨left, ⟨_, reads⟩, right⟩ := inductionHypothesis
    exact ⟨left, ⟨_, reads.trans (Cursor.reads_next? reads.sound)⟩, right⟩
  | find opcode before cursor after earlier inductionHypothesis =>
    simp only [List.forall_mem_append, List.forall_mem_cons] at inductionHypothesis ⊢
    obtain ⟨left, ⟨_, reads⟩, right⟩ := inductionHypothesis
    exact ⟨left, ⟨_, reads.trans (Cursor.reads_find? reads.sound opcode)⟩, right⟩
  | copy before cursor after earlier inductionHypothesis =>
    have own := inductionHypothesis cursor (List.mem_append_right before List.mem_cons_self)
    exact List.forall_mem_cons.mpr ⟨own, inductionHypothesis⟩

namespace Cursor

/-- Stepping from one cursor leads to another, and yields instructions on the way. -/
inductive Steps : Cursor → List Instruction → Cursor → Prop where
  /-- No step is taken. -/
  | stay (cursor : Cursor) : Steps cursor [] cursor
  /-- A step is taken, and more after it. -/
  | step {cursor advanced last : Cursor} {first : Instruction} {rest : List Instruction}
      (stepped : cursor.next? = (some first, advanced)) (onward : Steps advanced rest last) :
      Steps cursor (first :: rest) last

/-- Stepping comes to a word that can begin no instruction. -/
def BreaksOffAhead (cursor : Cursor) : Prop :=
  ∃ yielded last, cursor.Steps yielded last ∧ BreaksOff last.words last.position

section Stepping

variable {cursor last : Cursor} {yielded before later : List Instruction}

/-- What stepping yields is listed in front of what is listed where it leads. -/
theorem Steps.listing_eq (steps : cursor.Steps yielded last)
    (inside : cursor.position ≤ cursor.words.length) :
    last.position ≤ last.words.length ∧
      cursor.listing = ⟨yielded ++ last.listing.instructions, last.listing.truncated⟩ := by
  induction steps with
  | stay cursor => exact ⟨inside, rfl⟩
  | @step cursor advanced last first rest stepped onward inductionHypothesis =>
    cases listed : cursor.listing.instructions with
    | nil =>
      rw [next?_of_nil inside listed] at stepped
      exact absurd (Prod.mk.inj stepped).1 (Option.some_ne_none _).symm
    | cons front behind =>
      obtain ⟨steps, remains, _, stands⟩ := next?_of_cons inside listed
      rw [stepped] at steps
      obtain ⟨rfl, rfl⟩ := Prod.mk.inj steps |>.imp Option.some.inj id
      obtain ⟨lastInside, further⟩ := inductionHypothesis (past_inside stands)
      refine ⟨lastInside, ?_⟩
      rw [remains] at further
      obtain ⟨rfl, ending⟩ := Listing.mk.inj further
      rw [List.cons_append, ← listed, ← ending]

/-- Stepping on to a listed instruction and past it yields those in front of it, and it. -/
theorem steps_past {found : Instruction} (inside : cursor.position ≤ cursor.words.length)
    (listed : cursor.listing.instructions = before ++ found :: later) :
    cursor.Steps (before ++ [found]) (cursor.past found) := by
  induction before generalizing cursor with
  | nil => exact .step (next?_of_cons inside listed).1 (.stay _)
  | cons first rest inductionHypothesis =>
    rw [List.cons_append] at listed
    obtain ⟨stepped, remains, _, stands⟩ := next?_of_cons inside listed
    have further : (cursor.past first).listing.instructions = rest ++ found :: later := by
      rw [remains]
    exact .step stepped (inductionHypothesis (past_inside stands) further)

/-- Stepping until there is nothing left to list yields what is listed. -/
theorem exists_steps (inside : cursor.position ≤ cursor.words.length) :
    ∃ last, cursor.Steps cursor.listing.instructions last ∧
      last.position ≤ last.words.length ∧ last.listing = ⟨[], cursor.listing.truncated⟩ := by
  generalize listed : cursor.listing.instructions = instructions
  induction instructions generalizing cursor with
  | nil => exact ⟨cursor, .stay cursor, inside, by rw [← listed]⟩
  | cons first rest inductionHypothesis =>
    obtain ⟨stepped, remains, _, stands⟩ := next?_of_cons inside listed
    have further : (cursor.past first).listing.instructions = rest := by rw [remains]
    obtain ⟨last, onward, lastInside, left⟩ := inductionHypothesis (past_inside stands) further
    rw [remains] at left
    exact ⟨last, .step stepped onward, lastInside, left⟩

/-- Stepping comes to a break exactly if the listing is truncated. -/
theorem breaksOffAhead_iff (inside : cursor.position ≤ cursor.words.length) :
    cursor.BreaksOffAhead ↔ cursor.listing.truncated = true := by
  constructor
  · rintro ⟨yielded, last, steps, breaksOff⟩
    have ⟨first, present, _⟩ := breaksOff
    have refused := (breaksOff_iff_not_admits present).mp breaksOff
    rw [(steps.listing_eq inside).2, listing_of_not_admits last first present refused]
  · intro truncated
    obtain ⟨last, steps, lastInside, left⟩ := exists_steps inside
    rcases of_listing_nil lastInside (by rw [left]) with ⟨sound, _⟩ | ⟨_, breaksOff⟩
    · rw [left, truncated] at sound
      exact Bool.noConfusion sound
    · exact ⟨_, last, steps, breaksOff⟩

end Stepping

/-- How the outcome of a search is told by stepping. -/
structure SearchOutcome (cursor : Cursor) (opcode : UInt32) : Prop where
  /-- Of all the instructions that are left, the first with the opcode is found. -/
  first : (cursor.find? opcode).1 = cursor.readAll.1.find? (·.hasOpcode opcode)
  /-- Stepping up to the found instruction and past it, over others without the opcode, leads
  to the cursor after the search. -/
  found : ∀ found, (cursor.find? opcode).1 = some found →
    ∃ before, (∀ earlier ∈ before, earlier.hasOpcode opcode = false) ∧
      cursor.Steps (before ++ [found]) (cursor.find? opcode).2
  /-- A search without success leaves the cursor as it is, unless the words break off. -/
  stays : (cursor.find? opcode).1 = none → ¬ cursor.BreaksOffAhead →
    (cursor.find? opcode).2 = cursor
  /-- If they do, the cursor has met a truncation, and whatever is done with it or with copies
  of it afterwards hands over nothing. -/
  usedUp : (cursor.find? opcode).1 = none → cursor.BreaksOffAhead →
    (cursor.find? opcode).2.truncated = true ∧
      ∀ commands, ∀ report ∈ Session.reports { cursor := (cursor.find? opcode).2 } commands,
        report.instructions = []
  /-- Searching until there is no more finds all that are left with the opcode, in order. -/
  all : (cursor.findAll opcode).1 = cursor.readAll.1.filter (·.hasOpcode opcode)

end Cursor

namespace Session

variable {session : Session}

/-- With nothing listed in front of any cursor, a command hands over nothing, and nothing is
listed afterwards. -/
theorem perform_spent
    (spent : ∀ cursor ∈ session.cursors, cursor.Sound ∧ cursor.listing.instructions = [])
    (command : Command) :
    (session.perform command).1.instructions = [] ∧
      ∀ cursor ∈ (session.perform command).2.cursors,
        cursor.Sound ∧ cursor.listing.instructions = [] := by
  have aside := saved_perform session command
  by_cases restores : command = .restore
  · subst restores
    obtain ⟨nothing, known⟩ := perform_restore session
    refine ⟨nothing, List.forall_mem_cons.mpr ⟨spent _ known, ?_⟩⟩
    exact fun cursor member => spent cursor (aside cursor member)
  · obtain ⟨sound, empty⟩ := spent session.cursor List.mem_cons_self
    have reads := perform_reads sound restores
    have accounts := reads.accounts
    rw [empty, List.sublist_nil, List.append_eq_nil_iff] at accounts
    refine ⟨accounts.1, List.forall_mem_cons.mpr ⟨⟨reads.sound, accounts.2⟩, ?_⟩⟩
    exact fun cursor member => spent cursor (aside cursor member)

/-- With nothing listed in front of any cursor, no run of commands hands over anything. -/
theorem reports_spent
    (spent : ∀ cursor ∈ session.cursors, cursor.Sound ∧ cursor.listing.instructions = [])
    (commands : List Command) :
    ∀ report ∈ session.reports commands, report.instructions = [] := by
  induction commands generalizing session with
  | nil => exact List.forall_mem_nil _
  | cons command rest inductionHypothesis =>
    obtain ⟨nothing, spentNext⟩ := perform_spent spent command
    exact List.forall_mem_cons.mpr ⟨nothing, inductionHypothesis spentNext⟩

end Session

namespace Cursor

section Searching

variable {cursor : Cursor} {opcode : UInt32} (sound : cursor.Sound)
include sound

/-- A search that finds an instruction has passed over listed ones without the opcode, and
leaves the cursor past the one it has found. -/
theorem find?_of_found {found : Instruction} (hit : (cursor.find? opcode).1 = some found) :
    (cursor.find? opcode).2 = cursor.past found ∧
      ∃ before later, cursor.listing.instructions = before ++ found :: later ∧
        ∀ earlier ∈ before, earlier.hasOpcode opcode = false := by
  rw [find?_eq opcode sound] at hit ⊢
  cases present : cursor.listing.instructions.find? (·.hasOpcode opcode) with
  | none =>
    rw [present] at hit
    exact absurd hit (Option.some_ne_none _).symm
  | some instruction =>
    rw [present] at hit
    obtain rfl := Option.some.inj hit
    obtain ⟨_, before, later, listed, absent⟩ := List.find?_eq_some_iff_append.mp present
    refine ⟨rfl, before, later, listed, ?_⟩
    intro earlier member
    simpa using absent earlier member

/-- A search that finds nothing uses the cursor up if the words break off ahead of it, and
leaves it as it is if they do not. -/
theorem find?_of_missing (missed : (cursor.find? opcode).1 = none) :
    (cursor.BreaksOffAhead → (cursor.find? opcode).2 = cursor.exhaust) ∧
      (¬ cursor.BreaksOffAhead → (cursor.find? opcode).2 = cursor) := by
  rw [breaksOffAhead_iff sound.inside]
  rw [find?_eq opcode sound] at missed ⊢
  cases present : cursor.listing.instructions.find? (·.hasOpcode opcode) with
  | some instruction =>
    rw [present] at missed
    exact absurd missed (Option.some_ne_none _)
  | none => exact ⟨fun broken => if_pos broken, fun unbroken => if_neg unbroken⟩

/-- The outcome of a search from a sound cursor is told by stepping. The listing in front of
the cursor stands between the two: stepping takes it from its beginning, and searching finds
the first entry with the opcode. -/
theorem searchOutcome_of_sound : cursor.SearchOutcome opcode := by
  have whole : cursor.readAll.1 = cursor.listing.instructions := by
    rw [readAll_eq_listing cursor sound.inside]
  constructor
  case first =>
    rw [whole, find?_eq opcode sound]
    cases cursor.listing.instructions.find? (·.hasOpcode opcode) <;> rfl
  case found =>
    intro found hit
    obtain ⟨after, before, later, listed, absent⟩ := find?_of_found sound hit
    rw [after]
    exact ⟨before, absent, steps_past sound.inside listed⟩
  case stays => exact fun missed => (find?_of_missing sound missed).2
  case usedUp =>
    intro missed broken
    obtain ⟨exhaustSound, exhaustListing⟩ := exhaust_spent cursor
    rw [(find?_of_missing sound missed).1 broken]
    refine ⟨rfl, Session.reports_spent (List.forall_mem_singleton.mpr ⟨exhaustSound, ?_⟩)⟩
    rw [exhaustListing]
  case all => rw [whole, (findAll_spec opcode sound).1]

end Searching

end Cursor

/-- Whatever cursors are at work on a module, the outcome of a search from any of them is told
by stepping. -/
theorem search_told_by_stepping (words : List UInt32) (cursors : List Cursor)
    (atWork : AtWork words cursors) :
    ∀ cursor ∈ cursors, ∀ opcode, cursor.SearchOutcome opcode := by
  intro cursor member opcode
  obtain ⟨_, reads⟩ := atWork.reached cursor member
  exact Cursor.searchOutcome_of_sound reads.sound

/-- A module of two instructions and a word that declares more words than are left. One of
two cursors is stepped past the first instruction. From there a search for the opcode of
the second finds it, and one for the opcode of the first meets the truncation. -/
theorem broken_module_searched_by_stepping :
    let words := [magicNumber, 0, 0, 0, 0, 0x00020011, 1, 0x0002003B, 7, 0x00090047]
    let cursor := (Cursor.start words).next?.2
    AtWork words [cursor, .start words] ∧
      (cursor.find? 59).1 = some ⟨59, 7, 2⟩ ∧ cursor.SearchOutcome 59 ∧
      (cursor.find? 17).1 = none ∧ cursor.BreaksOffAhead ∧
      (cursor.find? 17).2.truncated = true := by
  intro words cursor
  have atWork : AtWork words [cursor, .start words] :=
    .next [] (.start words) [.start words] (.copy [] (.start words) [] .start)
  have outcome := search_told_by_stepping words _ atWork cursor List.mem_cons_self
  have sound : cursor.Sound := (Cursor.reads_next? (Cursor.start_sound words)).sound
  have missed : (cursor.find? 17).1 = none := by
    rw [Cursor.find?_eq 17 sound]
    decide
  have broken : cursor.BreaksOffAhead := (Cursor.breaksOffAhead_iff sound.inside).mpr (by decide)
  refine ⟨atWork, ?_, outcome 59, missed, broken, ((outcome 17).usedUp missed broken).1⟩
  rw [Cursor.find?_eq 59 sound]
  decide

end RenderAssets.Spirv
