import RenderAssets.Spirv.Session
import RenderAssets.Proofs.Spirv.CursorSearch

/-!
# Every cursor of a session stands between two instructions

A command that reads takes its cursor forward. What it hands over, followed by what is
listed from the cursor afterwards, is part of what was listed before, in the same order.
`Reads` says so of one cursor, together with where the cursor may stand; it holds of each
of the reading commands, and it composes. Saving and restoring read nothing. They only
change which cursors there are, and every one of them was reached by reading from the
start.

So no cursor ever stands inside an instruction, whatever commands are mixed, and nothing
is ever handed over that a plain reading of the module would not yield. As long as nothing
is restored, the instructions handed over come one behind the other, a truncation is not
forgotten, and a cursor that has nothing left yields nothing again.
-/

namespace RenderAssets.Spirv

/-- A place where a plain reading of a module has stood: the start, the end of one of the
instructions, or the end of the words. -/
def Boundary (words : List UInt32) (place : Nat) : Prop :=
  place = min headerWordCount words.length ∨
    (∃ instruction ∈ (Cursor.start words).readAll.1, place = instruction.stop) ∨
    place = words.length

namespace Cursor

/-- What it means to come from one cursor to another by reading, with some instructions
handed over on the way. -/
structure Reads (cursor : Cursor) (found : List Instruction) (after : Cursor) : Prop where
  sameWords : after.words = cursor.words
  sound : after.Sound
  /-- The cursor stays, or goes to the end of a listed instruction or of the words. -/
  stands : after.position = cursor.position ∨
    (∃ instruction ∈ cursor.listing.instructions, after.position = instruction.stop) ∨
    after.position = cursor.words.length
  /-- A truncation that has been met stays met. -/
  remembers : cursor.truncated = true → after.truncated = true
  /-- What is handed over, and what is left behind it, was listed in this order. -/
  accounts : (found ++ after.listing.instructions).Sublist cursor.listing.instructions

section Moves

variable {cursor : Cursor}

/-- Staying is reading nothing. -/
theorem reads_nothing (sound : cursor.Sound) : cursor.Reads [] cursor where
  sameWords := rfl
  sound := sound
  stands := Or.inl rfl
  remembers := id
  accounts := List.Sublist.refl _

/-- Going past a listed instruction hands it over. -/
theorem reads_past (sound : cursor.Sound) {before later : List Instruction} {found : Instruction}
    (listed : cursor.listing.instructions = before ++ found :: later) :
    cursor.Reads [found] (cursor.past found) := by
  have member : found ∈ cursor.listing.instructions := by simp [listed]
  constructor
  case sameWords => rfl
  case sound => exact past_sound sound member
  case stands => exact Or.inr (Or.inl ⟨found, member, rfl⟩)
  case remembers => exact id
  case accounts =>
    rw [listing_past sound.inside listed, listed]
    exact List.sublist_append_right before (found :: later)

/-- Giving up at a truncation hands nothing over, and leaves nothing. -/
theorem reads_exhaust (cursor : Cursor) : cursor.Reads [] cursor.exhaust := by
  obtain ⟨sound, empty⟩ := exhaust_spent cursor
  constructor
  case sameWords => rfl
  case sound => exact sound
  case stands => exact Or.inr (Or.inr rfl)
  case remembers => exact fun _ => rfl
  case accounts =>
    rw [empty]
    exact List.nil_sublist _

/-- Being at the end after reading everything hands over all that was listed. -/
theorem reads_finished (cursor : Cursor) :
    cursor.Reads cursor.listing.instructions cursor.finished := by
  obtain ⟨sameWords, atEnd⟩ := finished_at_end cursor
  constructor
  case sameWords => exact sameWords
  case sound => exact ⟨Nat.le_of_eq atEnd, fun _ => atEnd⟩
  case stands => exact Or.inr (Or.inr (sameWords ▸ atEnd))
  case remembers =>
    intro truncated
    rw [finished]
    split
    next => rfl
    next => exact truncated
  case accounts =>
    rw [listing_of_end cursor.finished (Nat.le_of_eq atEnd.symm), List.append_nil]

/-- Stepping hands over what it finds. -/
theorem reads_next? (sound : cursor.Sound) :
    cursor.Reads cursor.next?.1.toList cursor.next?.2 := by
  cases listed : cursor.listing.instructions with
  | nil =>
    rw [next?_of_nil sound.inside listed]
    have finished := reads_finished cursor
    rwa [listed] at finished
  | cons first rest =>
    have atOnce : cursor.listing.instructions = [] ++ first :: rest := listed
    rw [(next?_of_cons sound.inside listed).1]
    exact reads_past sound atOnce

/-- Searching hands over what it finds. -/
theorem reads_find? (sound : cursor.Sound) (opcode : UInt32) :
    cursor.Reads (cursor.find? opcode).1.toList (cursor.find? opcode).2 := by
  rw [find?_eq opcode sound]
  cases searched : cursor.listing.instructions.find? (·.hasOpcode opcode) with
  | some found =>
    obtain ⟨_, before, later, listed, _⟩ := List.find?_eq_some_iff_append.mp searched
    exact reads_past sound listed
  | none =>
    by_cases broken : cursor.listing.truncated = true
    · simp only [broken, ↓reduceIte]
      exact reads_exhaust cursor
    · simp only [broken, Bool.false_eq_true, ↓reduceIte]
      exact reads_nothing sound

/-- Reading to the end hands over all there is. -/
theorem reads_readAll (sound : cursor.Sound) :
    cursor.Reads cursor.readAll.1 cursor.readAll.2 := by
  rw [readAll_eq_listing cursor sound.inside]
  exact reads_finished cursor

/-- A cursor that does not step lists nothing from then on. -/
theorem listing_of_not_stepped (inside : cursor.position ≤ cursor.words.length)
    (nothing : cursor.next?.1 = none) : cursor.next?.2.listing.instructions = [] := by
  cases listed : cursor.listing.instructions with
  | nil =>
    rw [next?_of_nil inside listed, listing_of_end]
    exact Nat.le_of_eq (finished_at_end cursor).2.symm
  | cons first rest =>
    rw [(next?_of_cons inside listed).1] at nothing
    exact absurd nothing (Option.some_ne_none _)

/-- Reading on from where reading has led is reading. -/
theorem Reads.trans {between after : Cursor} {found further : List Instruction}
    (first : cursor.Reads found between) (second : between.Reads further after) :
    cursor.Reads (found ++ further) after := by
  have listed : between.listing.instructions.Sublist cursor.listing.instructions :=
    (List.sublist_append_right found _).trans first.accounts
  constructor
  case sameWords => exact second.sameWords.trans first.sameWords
  case sound => exact second.sound
  case stands =>
    rcases second.stands with stays | ⟨instruction, member, past⟩ | atEnd
    · rw [stays]
      exact first.stands
    · exact Or.inr (Or.inl ⟨instruction, listed.subset member, past⟩)
    · exact Or.inr (Or.inr (first.sameWords ▸ atEnd))
  case remembers => exact fun truncated => second.remembers (first.remembers truncated)
  case accounts =>
    rw [List.append_assoc]
    exact (second.accounts.append_left found).trans first.accounts

/-- What is handed over was listed. -/
theorem Reads.listed {after : Cursor} {found : List Instruction}
    (reads : cursor.Reads found after) : found.Sublist cursor.listing.instructions :=
  (List.sublist_append_left found _).trans reads.accounts

end Moves

end Cursor

/-- The instructions that a report hands over. -/
def Report.instructions : Report → List Instruction
  | silent => []
  | single found => found.toList
  | several found => found

namespace Session

/-- What a run of commands reports, command by command. -/
def reports : Session → List Command → List Report
  | _, [] => []
  | session, command :: rest =>
    (session.perform command).1 :: reports (session.perform command).2 rest

/-- The cursors of a session: the one in use and those put aside. -/
def cursors (session : Session) : List Cursor := session.cursor :: session.saved

/-- Every cursor of a session was reached by reading from the start of a module. -/
def Reached (words : List UInt32) (session : Session) : Prop :=
  ∀ cursor ∈ session.cursors, ∃ found, (Cursor.start words).Reads found cursor

section Runs

variable {session : Session} {words : List UInt32}

/-- A command other than restoring reads with the cursor in use. -/
theorem perform_reads (sound : session.cursor.Sound) {command : Command}
    (stays : command ≠ .restore) :
    session.cursor.Reads (session.perform command).1.instructions
      (session.perform command).2.cursor := by
  cases command with
  | next => exact Cursor.reads_next? sound
  | find opcode => exact Cursor.reads_find? sound opcode
  | readAll => exact Cursor.reads_readAll sound
  | save => exact Cursor.reads_nothing sound
  | restore => exact absurd rfl stays

/-- Commands other than restoring read with one cursor, from the first to the last. -/
theorem performAll_reads (sound : session.cursor.Sound) {commands : List Command}
    (stays : .restore ∉ commands) :
    session.cursor.Reads ((session.reports commands).flatMap Report.instructions)
      (session.performAll commands).cursor := by
  induction commands generalizing session with
  | nil => exact Cursor.reads_nothing sound
  | cons command rest inductionHypothesis =>
    obtain ⟨different, later⟩ := not_or.mp (List.mem_cons.not.mp stays)
    have first := perform_reads sound (Ne.symm different)
    exact first.trans (inductionHypothesis first.sound later)

/-- A command puts no cursor aside but one there was. -/
theorem saved_perform (session : Session) (command : Command) :
    ∀ cursor ∈ (session.perform command).2.saved, cursor ∈ session.cursors := by
  intro cursor member
  cases command with
  | next => exact List.mem_cons_of_mem _ member
  | find opcode => exact List.mem_cons_of_mem _ member
  | readAll => exact List.mem_cons_of_mem _ member
  | save => exact member
  | restore =>
    cases saved : session.saved with
    | nil =>
      simp only [perform, saved] at member
      exact absurd member List.not_mem_nil
    | cons last earlier =>
      simp only [perform, saved] at member
      rw [cursors, saved]
      exact List.mem_cons_of_mem _ (List.mem_cons_of_mem _ member)

/-- Restoring hands nothing over, and takes back a cursor there was. -/
theorem perform_restore (session : Session) :
    (session.perform .restore).1.instructions = [] ∧
      (session.perform .restore).2.cursor ∈ session.cursors := by
  cases saved : session.saved with
  | nil =>
    simp only [perform, saved]
    exact ⟨rfl, List.mem_cons_self⟩
  | cons last earlier =>
    simp only [perform, saved, cursors]
    exact ⟨rfl, List.mem_cons_of_mem _ List.mem_cons_self⟩

/-- After a command every cursor has still been reached by reading from the start, and
what the command hands over is listed there. -/
theorem perform_reached (reached : session.Reached words) (command : Command) :
    (session.perform command).2.Reached words ∧
      ∀ instruction ∈ (session.perform command).1.instructions,
        instruction ∈ (Cursor.start words).listing.instructions := by
  by_cases restores : command = .restore
  · subst restores
    obtain ⟨nothing, known⟩ := perform_restore session
    constructor
    · intro cursor member
      rcases List.mem_cons.mp member with rfl | aside
      · exact reached _ known
      · exact reached cursor (saved_perform session _ cursor aside)
    · rw [nothing]
      exact List.forall_mem_nil _
  · obtain ⟨found, reads⟩ := reached session.cursor List.mem_cons_self
    have onward := reads.trans (perform_reads reads.sound restores)
    constructor
    · intro cursor member
      rcases List.mem_cons.mp member with rfl | aside
      · exact ⟨_, onward⟩
      · exact reached cursor (saved_perform session command cursor aside)
    · intro instruction member
      exact onward.listed.subset (List.mem_append_right found member)

/-- After a run of commands every cursor has been reached by reading from the start, and
whatever the run has handed over is listed there. -/
theorem performAll_reached (reached : session.Reached words) (commands : List Command) :
    (session.performAll commands).Reached words ∧
      ∀ report ∈ session.reports commands, ∀ instruction ∈ report.instructions,
        instruction ∈ (Cursor.start words).listing.instructions := by
  induction commands generalizing session with
  | nil => exact ⟨reached, List.forall_mem_nil _⟩
  | cons command rest inductionHypothesis =>
    obtain ⟨reachedNext, listed⟩ := perform_reached reached command
    obtain ⟨reachedEnd, listedLater⟩ := inductionHypothesis reachedNext
    exact ⟨reachedEnd, List.forall_mem_cons.mpr ⟨listed, listedLater⟩⟩

end Runs

/-- The start of a session has one cursor, the start of the module. -/
theorem start_reached (words : List UInt32) : (start words).Reached words := by
  intro cursor member
  obtain rfl := List.mem_singleton.mp member
  exact ⟨[], Cursor.reads_nothing (Cursor.start_sound words)⟩

/-- What holds of the cursor in use while a session goes on without restoring. -/
structure Forward (session : Session) (onward : List Command) : Prop where
  /-- The instructions handed over stand further and further behind. -/
  increasing : ((session.reports onward).flatMap Report.instructions).Pairwise
    fun earlier later => earlier.offset < later.offset
  /-- A truncation that has been met stays met. -/
  remembers : session.cursor.truncated = true →
    (session.performAll onward).cursor.truncated = true
  /-- Once a step has found nothing, no command hands anything over. -/
  exhausted : (session.perform .next).1 = .single none →
    ∀ report ∈ (session.perform .next).2.reports onward, report.instructions = []

/-- A sound cursor goes forward through any commands that do not restore. -/
theorem forward_of_sound {session : Session} (sound : session.cursor.Sound)
    {onward : List Command} (stays : .restore ∉ onward) : session.Forward onward := by
  constructor
  case increasing =>
    exact (Cursor.listing_increasing sound.inside).sublist (performAll_reads sound stays).listed
  case remembers => exact (performAll_reads sound stays).remembers
  case exhausted =>
    intro nothing report member
    have found : session.cursor.next?.1 = none := Report.single.inj nothing
    have stepped : (session.perform .next).2.cursor.Sound := (Cursor.reads_next? sound).sound
    have listed := (performAll_reads stepped stays).listed
    have empty : (session.perform .next).2.cursor.listing.instructions = [] :=
      Cursor.listing_of_not_stepped sound.inside found
    rw [empty, List.sublist_nil, List.flatMap_eq_nil_iff] at listed
    exact listed report member

end Session

/-- Whatever commands a session consists of, every cursor in it, in use or put aside,
stands at a boundary of the module, and at the end of the words once it has met a
truncation. Every instruction handed over is one that a plain reading yields. And from
any point on, as long as nothing is restored, the cursor in use only goes forward.

Every cursor was reached by reading from the start. Reading leads to the end of a listed
instruction or of the words, and what it hands over was listed. -/
theorem session_stays_at_boundaries (words : List UInt32) (commands : List Command) :
    (∀ cursor ∈ ((Session.start words).performAll commands).cursors,
        cursor.words = words ∧ Boundary words cursor.position ∧
          (cursor.truncated = true → cursor.position = words.length)) ∧
      (∀ report ∈ (Session.start words).reports commands,
        ∀ instruction ∈ report.instructions, instruction ∈ (Cursor.start words).readAll.1) ∧
      ∀ onward, .restore ∉ onward →
        ((Session.start words).performAll commands).Forward onward := by
  obtain ⟨reached, listed⟩ :=
    Session.performAll_reached (Session.start_reached words) commands
  have full : (Cursor.start words).readAll.1 = (Cursor.start words).listing.instructions :=
    (Cursor.readAll_start words).1
  refine ⟨?_, ?_, ?_⟩
  · intro cursor member
    obtain ⟨found, reads⟩ := reached cursor member
    have sameWords : cursor.words = words := reads.sameWords
    refine ⟨sameWords, ?_, ?_⟩
    · rw [Boundary, full]
      exact reads.stands
    · intro truncated
      rw [reads.sound.spent truncated, sameWords]
  · rw [full]
    exact listed
  · intro onward stays
    obtain ⟨_, reads⟩ := reached _ List.mem_cons_self
    exact Session.forward_of_sound reads.sound stays

/-- A cursor is put aside after the first of three instructions, and taken back when the
other two have been read. It stands where the first one ends, and goes forward again. -/
theorem restored_session_stays_at_boundaries :
    let words := [magicNumber, 0, 0, 0, 0, 0x00020011, 1, 0x00010000, 0x0002003B, 7]
    let session := (Session.start words).performAll [.next, .save, .next, .next, .restore]
    session.cursor.position = 7 ∧ Boundary words 7 ∧
      .restore ∉ [Command.find 59, .next] ∧ session.Forward [.find 59, .next] := by
  intro words session
  obtain ⟨placed, _, forward⟩ :=
    session_stays_at_boundaries words [.next, .save, .next, .next, .restore]
  have position : session.cursor.position = 7 := by decide
  refine ⟨position, ?_, by decide, forward [.find 59, .next] (by decide)⟩
  rw [← position]
  exact (placed session.cursor List.mem_cons_self).2.1

end RenderAssets.Spirv
