import RenderAssets.Proofs.Spirv.ScannedInterfaces

/-!
# A cursor whose accesses are checked

The cursor looks words up in a way that cannot fail, subtracts numbers that never go
below zero, and recurses only where the words left to read become fewer. Here the
same steps are taken by operations that can go wrong. An index or a suffix outside
its list, a difference below zero, a search that leaves the cursor where it was, and
a loop that is still going after more rounds than there are words are faults, and a
fault ends everything. It is not an answer, not even the answer that there is nothing.

The checked cursor turns out to answer as the cursor does, whatever the words are.
So does the checked loop that does something for each instruction it finds, as long
as what it does for them has no fault.
-/

namespace RenderAssets.Spirv.Checked

/-- What can go wrong. -/
inductive Fault where
  /-- An index at the end of a list or past it. -/
  | index
  /-- A suffix that begins past the end of a list. -/
  | suffix
  /-- A difference below zero. -/
  | difference
  /-- A search that found something but left the cursor where it was. -/
  | stalled
  /-- A loop that did not end within its rounds. -/
  | endless
  deriving DecidableEq, Repr

section Accesses

variable {Entry : Type}

/-- The entry at an index. -/
def entryAt (entries : List Entry) (index : Nat) : Except Fault Entry :=
  match entries[index]? with
  | some entry => .ok entry
  | none => .error .index

/-- A list with another entry at an index. -/
def replaceAt (entries : List Entry) (index : Nat) (entry : Entry) :
    Except Fault (List Entry) :=
  if index < entries.length then .ok (entries.set index entry) else .error .index

/-- The entries from an index on. The index may be that of the end. -/
def suffixFrom (entries : List Entry) (index : Nat) : Except Fault (List Entry) :=
  if index ≤ entries.length then .ok (entries.drop index) else .error .suffix

/-- What is left of a number. -/
def difference (whole part : Nat) : Except Fault Nat :=
  if part ≤ whole then .ok (whole - part) else .error .difference

/-- An entry is read exactly where there is one. -/
theorem entryAt_eq_ok_iff {entries : List Entry} {index : Nat} {entry : Entry} :
    entryAt entries index = .ok entry ↔ entries[index]? = some entry := by
  rw [entryAt]
  cases entries[index]? with
  | none => simp only [reduceCtorEq]
  | some found => simp only [Except.ok.injEq, Option.some.injEq]

/-- A run that went well so far goes on with its result. -/
theorem ok_bind {Value Result : Type} (value : Value) (rest : Value → Except Fault Result) :
    (Except.ok value >>= rest) = rest value := rfl

end Accesses

/-- The instruction at a cursor, and the cursor after it. -/
def next (cursor : Cursor) : Except Fault (Option Instruction × Cursor) :=
  match cursor.words[cursor.position]? with
  | none => .ok (none, cursor)
  | some first => do
    let remaining ← difference cursor.words.length cursor.position
    if declaredCount first = 0 ∨ remaining < declaredCount first then
      return (none, cursor.exhaust)
    else
      return (some (cursor.announced first), cursor.advance (cursor.announced first))

/-- Go on only from a cursor that has moved on. -/
def movedOn (cursor advanced : Cursor) : Except Fault Unit :=
  if cursor.position < advanced.position then .ok () else .error .stalled

/-- Step until an instruction has the opcode, for some rounds at most. -/
def search (opcode : UInt32) : (rounds : Nat) → Cursor → Except Fault (Option Instruction × Cursor)
  | 0, _ => .error .endless
  | rounds + 1, cursor => do
    match ← next cursor with
    | (none, stopped) => return (none, stopped)
    | (some instruction, advanced) =>
      movedOn cursor advanced
      if instruction.hasOpcode opcode then return (some instruction, advanced)
      else search opcode rounds advanced

/-- The next instruction with an opcode, and the cursor after it. One round for each
word, and one to see the end, are all that is allowed. -/
def find (opcode : UInt32) (cursor : Cursor) : Except Fault (Option Instruction × Cursor) := do
  match ← search opcode (cursor.words.length + 1) cursor with
  | (some instruction, advanced) => return (some instruction, advanced)
  | (none, stopped) => return (none, if stopped.truncated then stopped else cursor)

/-- Search for an opcode again and again, and let a state take note of each
instruction that is found, for some rounds at most. A state that refuses one ends the
loop without a result. -/
def forEachFound {State : Type} (opcode : UInt32)
    (take : State → Instruction → Except Fault (Option State)) :
    (rounds : Nat) → Cursor → State → Except Fault (Option (State × Cursor))
  | 0, _, _ => .error .endless
  | rounds + 1, cursor, state => do
    match ← find opcode cursor with
    | (none, stopped) => return some (state, stopped)
    | (some instruction, advanced) =>
      movedOn cursor advanced
      match ← take state instruction with
      | none => return none
      | some taken => forEachFound opcode take rounds advanced taken

/-- The checked step has no fault: where there is a first word, the cursor is inside. -/
theorem next_eq (cursor : Cursor) : next cursor = .ok cursor.next? := by
  rw [next, Cursor.next?]
  cases present : cursor.words[cursor.position]? with
  | none => rfl
  | some first =>
    obtain ⟨inside, _⟩ := List.getElem?_eq_some_iff.mp present
    have subtracts : difference cursor.words.length cursor.position = .ok cursor.remaining :=
      if_pos (Nat.le_of_lt inside)
    simp only [subtracts, ok_bind]
    by_cases admitted : cursor.Admits first
    · have accepted : ¬ (declaredCount first = 0 ∨ cursor.remaining < declaredCount first) := by
        obtain ⟨positive, fits⟩ := admitted
        omega
      simp only [accepted, admitted, ↓reduceIte]
      rfl
    · have refused : declaredCount first = 0 ∨ cursor.remaining < declaredCount first := by
        simp only [Cursor.Admits] at admitted
        omega
      simp only [refused, admitted, ↓reduceIte]
      rfl

/-- A cursor with fewer words to read in the same module stands further on. -/
theorem movedOn_eq {cursor advanced : Cursor} (kept : advanced.words = cursor.words)
    (fewer : advanced.remaining < cursor.remaining) : movedOn cursor advanced = .ok () := by
  simp only [Cursor.remaining, kept] at fewer
  exact if_pos (by omega)

/-- The checked search has no fault when it has a round for each word that is left, and
one more. Induction on the rounds: each step leaves fewer words. -/
theorem search_eq (opcode : UInt32) {rounds : Nat} {cursor : Cursor}
    (enough : cursor.remaining < rounds) :
    search opcode rounds cursor = .ok (cursor.search opcode) := by
  induction rounds generalizing cursor with
  | zero => exact absurd enough (Nat.not_lt_zero _)
  | succ rounds inductionHypothesis =>
    rw [search, next_eq, ok_bind, Cursor.search_step]
    have kept := Cursor.words_next? cursor
    cases stepped : cursor.next? with
    | mk found advanced =>
      rw [stepped] at kept
      cases found with
      | none => rfl
      | some instruction =>
        have fewer := Cursor.remaining_next? stepped
        simp only [movedOn_eq kept fewer, ok_bind]
        by_cases same : instruction.hasOpcode opcode = true
        · simp only [same, ↓reduceIte]
          rfl
        · simp only [same, Bool.false_eq_true, ↓reduceIte]
          exact inductionHypothesis (by omega)

/-- The checked search for the next instruction has no fault. -/
theorem find_eq (opcode : UInt32) (cursor : Cursor) :
    find opcode cursor = .ok (cursor.find? opcode) := by
  have enough : cursor.remaining < cursor.words.length + 1 :=
    Nat.lt_succ_of_le (Nat.sub_le _ _)
  rw [find, search_eq opcode enough, ok_bind, Cursor.find?]
  cases cursor.search opcode with
  | mk found advanced => cases found <;> rfl

section Loop

variable {State Note : Type} {take : State → Instruction → Except Fault (Option State)}

/-- The checked loop has no fault when it has a round for each word that is left, and
one more, and taking a found instruction has none. It ends where searching for all of
them ends, with what the notes read of them make of the state, if all can be read.

Taking an instruction may rely on what holds of the state throughout. Induction on the
rounds: each instruction that is found leaves fewer words. -/
theorem forEachFound_eq (opcode : UInt32) (read : Instruction → Option Note)
    (noted : State → Note → State) (Valid : State → Prop)
    (keeps : ∀ state note, Valid state → Valid (noted state note))
    {rounds : Nat} {cursor : Cursor} (enough : cursor.remaining < rounds)
    (takes : ∀ state, Valid state → ∀ instruction ∈ (cursor.findAll opcode).1,
      take state instruction = .ok ((read instruction).map (noted state)))
    {state : State} (valid : Valid state) :
    forEachFound opcode take rounds cursor state =
      .ok (((cursor.findAll opcode).1.mapM read).map fun notes =>
        (notes.foldl noted state, (cursor.findAll opcode).2)) := by
  induction rounds generalizing cursor state with
  | zero => exact absurd enough (Nat.not_lt_zero _)
  | succ rounds inductionHypothesis =>
    rw [forEachFound, find_eq, ok_bind]
    rw [Cursor.findAll_step] at takes ⊢
    cases searched : cursor.find? opcode with
    | mk outcome advanced =>
      rw [searched] at takes
      cases outcome with
      | none => rfl
      | some instruction =>
        have fewer := Cursor.remaining_find? searched
        simp only [movedOn_eq (Cursor.words_find? searched) fewer, ok_bind,
          takes state valid instruction List.mem_cons_self, List.mapM_cons]
        cases read instruction with
        | none => rfl
        | some note =>
          have takesLater := fun later laterValid other member =>
            takes later laterValid other (List.mem_cons_of_mem instruction member)
          simp only [Option.map_some,
            inductionHypothesis (by omega) takesLater (keeps state note valid)]
          cases (advanced.findAll opcode).1.mapM read <;> rfl

end Loop

end RenderAssets.Spirv.Checked
