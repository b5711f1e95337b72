import Mathlib.Data.List.Forall2
import RenderAssets.Proofs.Spirv.ModulePartition

/-!
# Encoded instructions are read back

A record is what an instruction says, wherever it stands. Records that are encoded one
behind the other after a header are read back as they are, in order, each where its
encoding begins. Operands are never taken for first words, whatever they are, because
the count in a first word leads past them. What comes behind the records is not read if
it cannot begin an instruction; the cursor then remembers that the module is truncated.

The listing names no cursor, so the records can be taken off the front of the words one
by one, with nothing said about what stands before them.
-/

namespace RenderAssets.Spirv

/-- What an instruction says, with no more operands than its first word can count. -/
structure Record where
  opcode : UInt16
  operands : List UInt32
  fits : operands.length ≤ 65534

namespace Record

/-- The words that a record is encoded in. -/
def words (record : Record) : List UInt32 := encodeInstruction record.opcode record.operands

/-- The instruction that a record is at a place. -/
def placedAt (record : Record) (offset : Nat) : Instruction where
  opcode := record.opcode
  offset := offset
  wordCount := record.operands.length + 1

/-- The words of records, one behind the other. -/
def encodeAll (records : List Record) : List UInt32 := records.flatMap words

/-- The instructions that records are when they are encoded from a place on. -/
def placedFrom : Nat → List Record → List Instruction
  | _, [] => []
  | offset, record :: rest =>
    record.placedAt offset :: placedFrom (record.placedAt offset).stop rest

/-- The words of records begin with those of the first. -/
theorem encodeAll_cons (record : Record) (rest : List Record) :
    encodeAll (record :: rest) = record.words ++ encodeAll rest := List.flatMap_cons

/-- A record has as many words as the instruction counts. -/
theorem length_words (record : Record) (offset : Nat) :
    record.words.length = (record.placedAt offset).wordCount := rfl

/-- A record at the front of the words is listed first, and the rest of the listing is
that of the words behind it. -/
theorem listing_cons (record : Record) (offset : Nat) (rest : List UInt32) :
    Listing.ofRest offset 0 (record.words ++ rest) =
      ⟨record.placedAt offset ::
          (Listing.ofRest (record.placedAt offset).stop 0 rest).instructions,
        (Listing.ofRest (record.placedAt offset).stop 0 rest).truncated⟩ := by
  have fits : record.operands.length + 1 < 0x10000 := Nat.lt_succ_of_le (Nat.succ_le_succ record.fits)
  obtain ⟨count, opcode⟩ := declared_firstWord record.opcode fits
  have admitted : 0 < record.operands.length + 1 ∧
      record.operands.length + 1 ≤ (record.operands ++ rest).length + 1 := by
    simp only [List.length_append]
    omega
  have behind : offset + 1 + record.operands.length = (record.placedAt offset).stop := by
    simp only [Instruction.stop, placedAt]
    omega
  rw [words, encodeInstruction, List.cons_append, Listing.ofRest, count, opcode, if_pos admitted,
    Listing.ofRest_eq_drop, Nat.add_sub_cancel, List.drop_left, behind]
  rfl

/-- Records at the front of the words are listed in order, before all that is behind them.
Induction on the records. -/
theorem listing_append (records : List Record) (offset : Nat) (tail : List UInt32) :
    Listing.ofRest offset 0 (encodeAll records ++ tail) =
      ⟨placedFrom offset records ++
          (Listing.ofRest (offset + (encodeAll records).length) 0 tail).instructions,
        (Listing.ofRest (offset + (encodeAll records).length) 0 tail).truncated⟩ := by
  induction records generalizing offset with
  | nil => rfl
  | cons record rest inductionHypothesis =>
    have stop : (record.placedAt offset).stop + (encodeAll rest).length =
        offset + (encodeAll (record :: rest)).length := by
      rw [encodeAll_cons, List.length_append, record.length_words offset, Instruction.stop,
        Nat.add_assoc]
      rfl
    rw [encodeAll_cons, List.append_assoc, listing_cons, inductionHypothesis, stop]
    rfl

/-- Records that stand in the words are present in them as they are encoded. -/
theorem words_placedFrom {encoded tail : List UInt32} {offset : Nat} (records : List Record)
    (stands : encoded.drop offset = encodeAll records ++ tail) :
    List.Forall₂ (fun instruction record =>
        instruction.opcode = record.opcode ∧ instruction.words? encoded = some record.words)
      (placedFrom offset records) records := by
  induction records generalizing offset with
  | nil => exact .nil
  | cons record rest inductionHypothesis =>
    rw [encodeAll_cons, List.append_assoc] at stands
    have own : (encoded.drop offset).take record.words.length = record.words := by
      rw [stands, List.take_left]
    have behind : encoded.drop (record.placedAt offset).stop = encodeAll rest ++ tail := by
      rw [Instruction.stop, ← record.length_words offset]
      change encoded.drop (offset + record.words.length) = _
      rw [← List.drop_drop, stands, List.drop_left]
    have fits : (record.placedAt offset).stop ≤ encoded.length := by
      have length := congrArg List.length stands
      simp only [List.length_drop, List.length_append, record.length_words offset] at length
      have positive : 0 < (record.placedAt offset).wordCount := Nat.succ_pos _
      change offset + (record.placedAt offset).wordCount ≤ _
      omega
    refine .cons ⟨rfl, ?_⟩ (inductionHypothesis behind)
    rw [Instruction.words?, if_pos fits]
    exact congrArg some own

end Record

/-- Words that can begin no instruction list none, and are a truncation unless there are
no words at all. -/
theorem listing_of_tail {tail : List UInt32} (offset : Nat)
    (useless : tail = [] ∨ BreaksOff tail 0) :
    Listing.ofRest offset 0 tail = ⟨[], decide (tail ≠ [])⟩ := by
  rcases useless with rfl | ⟨first, present, declares⟩
  · rfl
  · cases tail with
    | nil => exact absurd present (Option.some_ne_none _).symm
    | cons word rest =>
      obtain rfl : word = first := Option.some.inj present
      have split := toNat_eq_declared word
      have low := (declaredOpcode word).toNat_lt
      have refused : ¬ (0 < declaredCount word ∧ declaredCount word ≤ rest.length + 1) := by
        simp only [List.length_cons] at declares
        omega
      rw [Listing.ofRest, if_neg refused]
      rfl

/-- A header, encoded records, and words behind them. -/
def recordModule (header : List UInt32) (records : List Record) (tail : List UInt32) :
    List UInt32 :=
  header ++ (Record.encodeAll records ++ tail)

section RecordModule

variable {header tail : List UInt32} (records : List Record)
  (whole : header.length = headerWordCount) (useless : tail = [] ∨ BreaksOff tail 0)
include whole

/-- The records are encoded behind the header. -/
theorem drop_recordModule :
    (recordModule header records tail).drop headerWordCount =
      Record.encodeAll records ++ tail := by
  rw [recordModule, ← whole, List.drop_left]

include useless

/-- The records are what is listed of the module. -/
theorem listing_recordModule :
    Listing.ofWords (recordModule header records tail) =
      ⟨Record.placedFrom headerWordCount records, decide (tail ≠ [])⟩ := by
  have begins : min headerWordCount (recordModule header records tail).length =
      headerWordCount := by
    rw [recordModule, List.length_append, whole]
    exact Nat.min_eq_left (Nat.le_add_right _ _)
  rw [Listing.ofWords, begins, drop_recordModule records whole, Record.listing_append,
    listing_of_tail _ useless, List.append_nil]

end RecordModule

/-- Reading a header, encoded records and words that can begin no instruction yields one
instruction for each record: in order, with its opcode, where its encoding begins, and
with its encoding as its words. Then there is none, and none after that. The module
counts as truncated exactly when there are words behind the records. -/
theorem records_read_back (header : List UInt32) (records : List Record) (tail : List UInt32)
    (whole : header.length = headerWordCount) (useless : tail = [] ∨ BreaksOff tail 0) :
    (Cursor.start (recordModule header records tail)).readAll.1 =
        Record.placedFrom headerWordCount records ∧
      List.Forall₂ (fun instruction record => instruction.opcode = record.opcode ∧
          instruction.words? (recordModule header records tail) = some record.words)
        (Cursor.start (recordModule header records tail)).readAll.1 records ∧
      (Cursor.start (recordModule header records tail)).readAll.2.next? =
        (none, (Cursor.start (recordModule header records tail)).readAll.2) ∧
      ((Cursor.start (recordModule header records tail)).readAll.2.truncated = true ↔
        tail ≠ []) := by
  obtain ⟨instructions, truncated⟩ := Cursor.readAll_start (recordModule header records tail)
  have ending := Cursor.readAll_eq_listing (.start (recordModule header records tail))
    (Cursor.start_sound _).inside
  have listed := listing_recordModule records whole useless
  refine ⟨?_, ?_, ?_, ?_⟩
  · rw [instructions, listed]
  · rw [instructions, listed]
    exact Record.words_placedFrom records (drop_recordModule records whole)
  · rw [ending]
    exact Cursor.next?_at_end (Cursor.finished_at_end _).2
  · rw [truncated, listed]
    exact decide_eq_true_iff

/-- The operands of the first record look like first words, and the last word declares
nine words where it is the only one left. -/
theorem misleading_records_read_back :
    let records : List Record :=
      [⟨71, [0x0002003B, 0x00010000], by decide⟩, ⟨0, [], by decide⟩, ⟨59, [0], by decide⟩]
    let encoded := recordModule [magicNumber, 0, 0, 0, 0] records [0x00090047]
    (Cursor.start encoded).readAll.1 = [⟨71, 5, 3⟩, ⟨0, 8, 1⟩, ⟨59, 9, 2⟩] ∧
      (Cursor.start encoded).readAll.2.truncated = true := by
  intro records encoded
  obtain ⟨instructions, _, _, truncated⟩ := records_read_back [magicNumber, 0, 0, 0, 0] records
    [0x00090047] rfl (Or.inr ⟨0x00090047, rfl, by decide⟩)
  exact ⟨instructions, truncated.mpr (List.cons_ne_nil _ _)⟩

end RenderAssets.Spirv
