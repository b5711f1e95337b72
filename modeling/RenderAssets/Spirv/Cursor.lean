import RenderAssets.Spirv.Instruction

/-!
# A cursor over the instructions of a module

The cursor stands between two instructions. Stepping reads the instruction that
starts there and moves past it. Reaching the end is not the same as meeting a
first word that declares no words or more words than are left: that module is
truncated there, the cursor remembers it, and nothing follows.

A search steps until it meets an opcode. When the rest of the module is sound and
lacks the opcode, the cursor stays where it was, so that another search can start
from the same place. When the rest is truncated, the search uses the cursor up.

Every step that finds an instruction leaves fewer words to read, which is why
searches and listings come to an end.
-/

namespace RenderAssets.Spirv

/-- A place between two instructions of a module. -/
structure Cursor where
  words : List UInt32
  position : Nat
  truncated : Bool := false
  deriving DecidableEq, Repr

namespace Cursor

/-- The cursor in front of the first instruction. -/
def start (words : List UInt32) : Cursor where
  words := words
  position := min headerWordCount words.length

/-- The number of words not yet read. -/
def remaining (cursor : Cursor) : Nat := cursor.words.length - cursor.position

/-- The instruction that a first word announces at the cursor. -/
def announced (cursor : Cursor) (first : UInt32) : Instruction where
  opcode := declaredOpcode first
  offset := cursor.position
  wordCount := declaredCount first

/-- Whether a first word can begin an instruction at the cursor. -/
def Admits (cursor : Cursor) (first : UInt32) : Prop :=
  0 < declaredCount first ∧ declaredCount first ≤ cursor.remaining

instance (cursor : Cursor) (first : UInt32) : Decidable (cursor.Admits first) :=
  inferInstanceAs (Decidable (_ ∧ _))

/-- The cursor past an instruction. -/
def advance (cursor : Cursor) (instruction : Instruction) : Cursor :=
  { cursor with position := cursor.position + instruction.wordCount }

/-- The cursor after meeting a first word that begins no instruction. -/
def exhaust (cursor : Cursor) : Cursor :=
  { cursor with position := cursor.words.length, truncated := true }

/-- The instruction at the cursor, and the cursor after it. -/
def next? (cursor : Cursor) : Option Instruction × Cursor :=
  match cursor.words[cursor.position]? with
  | none => (none, cursor)
  | some first =>
    if cursor.Admits first then
      (some (cursor.announced first), cursor.advance (cursor.announced first))
    else
      (none, cursor.exhaust)

/-- A step that finds an instruction has fewer words left to read. -/
theorem remaining_next? {cursor advanced : Cursor} {instruction : Instruction}
    (stepped : cursor.next? = (some instruction, advanced)) :
    advanced.remaining < cursor.remaining := by
  simp only [next?] at stepped
  split at stepped
  next => simp at stepped
  next first present =>
    split at stepped
    next admitted =>
      obtain ⟨rfl, rfl⟩ := Prod.mk.inj stepped |>.imp Option.some.inj id
      obtain ⟨positive, fits⟩ := admitted
      simp only [remaining, advance, announced] at fits ⊢
      omega
    next => simp at stepped

/-- Step until an instruction has the opcode; the cursor that could not step any
further otherwise. -/
def search (opcode : UInt32) (cursor : Cursor) : Option Instruction × Cursor :=
  match _ : cursor.next? with
  | (none, stopped) => (none, stopped)
  | (some instruction, advanced) =>
    if instruction.hasOpcode opcode then (some instruction, advanced)
    else search opcode advanced
termination_by cursor.remaining
decreasing_by apply remaining_next?; assumption

/-- The next instruction with an opcode, and the cursor after it. Without one, the
cursor stays unless the search met a truncated instruction. -/
def find? (opcode : UInt32) (cursor : Cursor) : Option Instruction × Cursor :=
  match cursor.search opcode with
  | (some instruction, advanced) => (some instruction, advanced)
  | (none, stopped) => (none, if stopped.truncated then stopped else cursor)

/-- Stepping up to an instruction with the opcode leaves fewer words to read. -/
theorem remaining_search {opcode : UInt32} {cursor advanced : Cursor} {instruction : Instruction}
    (found : cursor.search opcode = (some instruction, advanced)) :
    advanced.remaining < cursor.remaining := by
  fun_induction search opcode cursor with
  | case1 => simp at found
  | case2 cursor first next stepped same =>
    obtain ⟨_, rfl⟩ := Prod.mk.inj found
    exact remaining_next? stepped
  | case3 cursor first next stepped different inductionHypothesis =>
    exact Nat.lt_trans (inductionHypothesis found) (remaining_next? stepped)

/-- Where an instruction is found, fewer words are left to read than where the search began. -/
theorem remaining_find? {opcode : UInt32} {cursor advanced : Cursor} {instruction : Instruction}
    (found : cursor.find? opcode = (some instruction, advanced)) :
    advanced.remaining < cursor.remaining := by
  simp only [find?] at found
  split at found
  next searched =>
    obtain ⟨rfl, rfl⟩ := Prod.mk.inj found |>.imp Option.some.inj id
    exact remaining_search searched
  next => simp at found

/-- All remaining instructions, and the cursor that has read them. -/
def readAll (cursor : Cursor) : List Instruction × Cursor :=
  match _ : cursor.next? with
  | (none, stopped) => ([], stopped)
  | (some instruction, advanced) =>
    let (rest, stopped) := readAll advanced
    (instruction :: rest, stopped)
termination_by cursor.remaining
decreasing_by apply remaining_next?; assumption

/-- All remaining instructions with an opcode, searched for one after the other,
and the cursor after the last search. -/
def findAll (opcode : UInt32) (cursor : Cursor) : List Instruction × Cursor :=
  match _ : cursor.find? opcode with
  | (none, stopped) => ([], stopped)
  | (some instruction, advanced) =>
    let (rest, stopped) := findAll opcode advanced
    (instruction :: rest, stopped)
termination_by cursor.remaining
decreasing_by apply remaining_find?; assumption

end Cursor

end RenderAssets.Spirv
