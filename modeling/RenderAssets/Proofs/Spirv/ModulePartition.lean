import Mathlib.Data.List.Chain
import RenderAssets.Proofs.Spirv.CursorSearch

/-!
# The instructions of a module partition its words

Reading a module instruction by instruction cuts its words, from the header to some
stop, into the words of the instructions. Nothing is skipped, nothing is read twice,
and nothing is read past the end. The stop is the end of the words unless the module
is truncated. Then the word at the stop declares no words, or more than are left.

The proof goes through `Tiles`: instructions that stand in the words one right behind
the other, from one place to another. A listing is such a tiling, and whatever is said
of the partition is said of any tiling, by induction on it.
-/

namespace RenderAssets.Spirv

/-- Instructions stand in the words one right behind the other, from one place to
another. -/
inductive Tiles (words : List UInt32) : Nat → List Instruction → Nat → Prop where
  | nil (place : Nat) : Tiles words place [] place
  | cons {first : Instruction} {rest : List Instruction} {stop : Nat} :
      first.StandsIn words → Tiles words first.stop rest stop →
        Tiles words first.offset (first :: rest) stop

/-- The words of instructions, one after the other. -/
def wordsOfAll (words : List UInt32) (instructions : List Instruction) : List UInt32 :=
  instructions.flatMap fun instruction => (instruction.words? words).getD []

/-- The words of an instruction that stands in them begin with a word that is made up
of its count and its opcode. -/
theorem Instruction.StandsIn.first_word {instruction : Instruction} {words : List UInt32}
    (stands : instruction.StandsIn words) :
    ∃ first operands, instruction.words? words = some (first :: operands) ∧
      operands.length + 1 = instruction.wordCount ∧
      first.toNat = instruction.wordCount * 0x10000 + instruction.opcode.toNat := by
  obtain ⟨first, present, opcode, count⟩ := stands.declared
  obtain ⟨inside, rfl⟩ := List.getElem?_eq_some_iff.mp present
  have positive := stands.positive
  have found : instruction.words? words =
      some ((words.drop instruction.offset).take instruction.wordCount) := if_pos stands.fits
  have length := length_words? _ _ _ found
  rw [List.drop_eq_getElem_cons inside, List.take_cons positive] at found length
  refine ⟨_, _, found, length, ?_⟩
  rw [opcode, count]
  exact toNat_eq_declared _

namespace Tiles

variable {words : List UInt32} {place stop : Nat} {instructions : List Instruction}

/-- A tiling does not go backwards, and ends inside the words if it begins there. -/
theorem bounds (tiles : Tiles words place instructions stop) :
    place ≤ stop ∧ (place ≤ words.length → stop ≤ words.length) := by
  induction tiles with
  | nil place => exact ⟨Nat.le_refl place, id⟩
  | @cons first rest stop stands _ inductionHypothesis =>
    obtain ⟨forward, within⟩ := inductionHypothesis
    constructor
    · exact Nat.le_trans (Nat.le_add_right _ _) forward
    · exact fun _ => within stands.fits

/-- Every instruction of a tiling stands in the words. -/
theorem stands (tiles : Tiles words place instructions stop) :
    ∀ instruction ∈ instructions, instruction.StandsIn words := by
  induction tiles with
  | nil => exact List.forall_mem_nil _
  | cons stands _ inductionHypothesis => exact List.forall_mem_cons.mpr ⟨stands, inductionHypothesis⟩

/-- The first instruction of a tiling is where it begins. -/
theorem begins (tiles : Tiles words place instructions stop) {first : Instruction}
    (head : instructions.head? = some first) : first.offset = place := by
  cases tiles with
  | nil => exact absurd head (Option.some_ne_none _).symm
  | cons => rw [Option.some.inj head]

/-- In a tiling each instruction is right behind the one before. -/
theorem abuts (tiles : Tiles words place instructions stop) :
    instructions.IsChain fun earlier later =>
      later.offset = earlier.offset + earlier.wordCount := by
  induction tiles with
  | nil => exact List.isChain_nil
  | @cons first rest stop _ tail inductionHypothesis =>
    refine List.isChain_cons.mpr ⟨?_, inductionHypothesis⟩
    intro later head
    exact tail.begins head

/-- The words of a tiling are those from its beginning to its end. Induction on the
tiling: the words of the first instruction and those behind it up to the end make up
the words from its offset on. -/
theorem covers (tiles : Tiles words place instructions stop) :
    wordsOfAll words instructions = (words.take stop).drop place := by
  induction tiles with
  | nil place => simp [wordsOfAll]
  | @cons first rest stop stands tail inductionHypothesis =>
    have forward := tail.bounds.1
    have found : first.words? words =
        some ((words.drop first.offset).take first.wordCount) := if_pos stands.fits
    have upToStop : (words.drop first.offset).take first.wordCount =
        ((words.take stop).drop first.offset).take first.wordCount := by
      simp only [Instruction.stop] at forward
      rw [List.drop_take, List.take_take, Nat.min_eq_left (by omega)]
    have behind : (words.take stop).drop first.stop =
        ((words.take stop).drop first.offset).drop first.wordCount := by
      rw [List.drop_drop, Instruction.stop]
    simp only [wordsOfAll] at inductionHypothesis
    rw [wordsOfAll, List.flatMap_cons, found, Option.getD_some, inductionHypothesis, upToStop,
      behind, List.take_append_drop]

end Tiles

/-- The word at a place can begin no instruction: it declares no words, or more than
are left. -/
def BreaksOff (words : List UInt32) (place : Nat) : Prop :=
  ∃ first, words[place]? = some first ∧
    (first.toNat / 0x10000 = 0 ∨ words.length - place < first.toNat / 0x10000)

namespace Cursor

/-- The words break off at a cursor exactly if the word there is not admitted. -/
theorem breaksOff_iff_not_admits {cursor : Cursor} {first : UInt32}
    (present : cursor.words[cursor.position]? = some first) :
    BreaksOff cursor.words cursor.position ↔ ¬ cursor.Admits first := by
  have split := toNat_eq_declared first
  have low := (declaredOpcode first).toNat_lt
  have declared : first.toNat / 0x10000 = declaredCount first := by omega
  simp only [BreaksOff, present, Option.some.injEq, exists_eq_left', declared, Admits, remaining]
  omega

/-- Where nothing is listed, the words end or break off. -/
theorem of_listing_nil {cursor : Cursor} (inside : cursor.position ≤ cursor.words.length)
    (none : cursor.listing.instructions = []) :
    (cursor.listing.truncated = false ∧ cursor.position = cursor.words.length) ∨
      (cursor.listing.truncated = true ∧ BreaksOff cursor.words cursor.position) := by
  cases present : cursor.words[cursor.position]? with
  | none =>
    have atEnd : cursor.words.length ≤ cursor.position := List.getElem?_eq_none_iff.mp present
    left
    rw [listing_of_end cursor atEnd]
    exact ⟨rfl, Nat.le_antisymm inside atEnd⟩
  | some first =>
    by_cases admitted : cursor.Admits first
    · rw [listing_of_admits cursor first present admitted] at none
      exact absurd none (List.cons_ne_nil _ _)
    · right
      rw [listing_of_not_admits cursor first present admitted]
      exact ⟨rfl, (breaksOff_iff_not_admits present).mpr admitted⟩

/-- The listed instructions are a tiling from the cursor on, up to where the words end or
break off. Induction on the listing: the rest of it lies past its first instruction. -/
theorem listing_tiles {cursor : Cursor} (inside : cursor.position ≤ cursor.words.length) :
    ∃ stop, Tiles cursor.words cursor.position cursor.listing.instructions stop ∧
      ((cursor.listing.truncated = false ∧ stop = cursor.words.length) ∨
        (cursor.listing.truncated = true ∧ BreaksOff cursor.words stop)) := by
  generalize listed : cursor.listing.instructions = instructions
  induction instructions generalizing cursor with
  | nil => exact ⟨cursor.position, .nil cursor.position, of_listing_nil inside listed⟩
  | cons first rest inductionHypothesis =>
    obtain ⟨_, remains, offset, stands⟩ := next?_of_cons inside listed
    have further : (cursor.past first).listing.instructions = rest := by rw [remains]
    obtain ⟨stop, tiles, ending⟩ := inductionHypothesis (past_inside stands) further
    rw [remains] at ending
    refine ⟨stop, ?_, ending⟩
    rw [← offset]
    exact .cons stands tiles

end Cursor

/-- How instructions and the stop behind them partition the words of a module, and
whether the module is truncated there. -/
structure Partition (words : List UInt32) (instructions : List Instruction) (truncated : Bool)
    (stop : Nat) : Prop where
  /-- Every instruction has words, all of them present. The first one holds their number
  in its high half and the opcode in its low half. -/
  present : ∀ instruction ∈ instructions, 1 ≤ instruction.wordCount ∧
    ∃ first operands, instruction.words? words = some (first :: operands) ∧
      operands.length + 1 = instruction.wordCount ∧
      first.toNat = instruction.wordCount * 0x10000 + instruction.opcode.toNat
  /-- The first instruction is right behind the header. -/
  begins : ∀ first, instructions.head? = some first → first.offset = headerWordCount
  /-- Each instruction is right behind the one before. -/
  abuts : instructions.IsChain fun earlier later =>
    later.offset = earlier.offset + earlier.wordCount
  /-- The words of the instructions are all the words between the header and the stop. -/
  covers : wordsOfAll words instructions = (words.take stop).drop headerWordCount
  /-- The stop is not in front of the header's end, nor past the end of the words. -/
  bounds : min headerWordCount words.length ≤ stop ∧ stop ≤ words.length
  /-- Fewer words than a header has hold no instruction. -/
  headless : words.length < headerWordCount → instructions = []
  /-- A module is sound exactly when its instructions reach the end of the words. -/
  sound : truncated = false ↔ stop = words.length ∨ words.length < headerWordCount
  /-- A truncated module breaks off at a word that declares no words or too many. -/
  broken : truncated = true → BreaksOff words stop

/-- The instructions read from the start of a module until there is none partition its
words, whatever the words are, and the flag left behind tells whether they reach the
end of them. -/
theorem readAll_partitions (words : List UInt32) :
    ∃ stop, Partition words (Cursor.start words).readAll.1
      (Cursor.start words).readAll.2.truncated stop := by
  have inside := (Cursor.start_sound words).inside
  have listed : (Cursor.start words).listing = Listing.ofWords words := rfl
  obtain ⟨stop, tiles, ending⟩ := Cursor.listing_tiles inside
  rw [(Cursor.readAll_start words).1, (Cursor.readAll_start words).2, ← listed]
  have bounds : min headerWordCount words.length ≤ stop ∧ stop ≤ words.length :=
    ⟨tiles.bounds.1, tiles.bounds.2 inside⟩
  have headless : words.length < headerWordCount →
      (Cursor.start words).listing.instructions = [] := by
    intro short
    rw [Cursor.listing_of_end]
    exact Nat.le_min.mpr ⟨Nat.le_of_lt short, Nat.le_refl _⟩
  refine ⟨stop, ?_⟩
  constructor
  case present =>
    intro instruction member
    have stands := tiles.stands instruction member
    exact ⟨stands.positive, stands.first_word⟩
  case begins =>
    intro first head
    rw [tiles.begins head]
    apply Nat.min_eq_left
    by_contra short
    rw [headless (Nat.not_le.mp short)] at head
    exact absurd head (Option.some_ne_none _).symm
  case abuts => exact tiles.abuts
  case covers =>
    by_cases short : words.length < headerWordCount
    · have shortToo : (words.take stop).length ≤ headerWordCount :=
        Nat.le_trans (List.length_take_le' _ _) (Nat.le_of_lt short)
      rw [headless short, List.drop_eq_nil_of_le shortToo]
      rfl
    · have whole : min headerWordCount words.length = headerWordCount :=
        Nat.min_eq_left (Nat.not_lt.mp short)
      have covered : wordsOfAll words (Cursor.start words).listing.instructions =
          (words.take stop).drop (min headerWordCount words.length) := tiles.covers
      rwa [whole] at covered
  case bounds => exact bounds
  case headless => exact headless
  case sound =>
    rcases ending with ⟨sound, atEnd⟩ | ⟨broken, first, present, _⟩
    · exact iff_of_true sound (Or.inl atEnd)
    · obtain ⟨before, _⟩ := List.getElem?_eq_some_iff.mp present
      have missed : ¬ (stop = words.length ∨ words.length < headerWordCount) := by
        simp only [Cursor.start] at before
        omega
      exact iff_of_false (by simp [broken]) missed
  case broken =>
    intro truncated
    rcases ending with ⟨sound, _⟩ | ⟨_, breaksOff⟩
    · exact absurd truncated (Bool.eq_false_iff.mp sound)
    · exact breaksOff

end RenderAssets.Spirv
