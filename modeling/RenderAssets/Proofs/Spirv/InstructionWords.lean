import RenderAssets.Spirv.Interface
import RenderAssets.Proofs.Spirv.CursorSearch

/-!
# Reading the words of an instruction

An instruction is read word by word. Whatever is read of it, be it an entry
point, a location or a variable, is fixed by a few of its words, and reading
fails only when one of these is missing. For an instruction that stands in the
words, that is a condition on its word count alone.

The interface ids of an entry point are the words behind its text. There are some
exactly when a word follows the first one that ends a text.
-/

namespace RenderAssets.Spirv

namespace Instruction

variable {instruction : Instruction} {words found : List UInt32}

/-- The word at an index of an instruction, unless the instruction is shorter or
the words end before it does. -/
def word? (instruction : Instruction) (words : List UInt32) (index : Nat) : Option UInt32 :=
  (instruction.words? words).bind (·[index]?)

/-- Words are read one by one where they are read together. -/
theorem word?_of_present (present : instruction.words? words = some found) (index : Nat) :
    instruction.word? words index = found[index]? := by
  rw [word?, present, Option.bind_some]

/-- An instruction that stands in the words is present in them. -/
theorem StandsIn.present (stands : instruction.StandsIn words) :
    ∃ found, instruction.words? words = some found ∧ found.length = instruction.wordCount := by
  have present : instruction.words? words =
      some ((words.drop instruction.offset).take instruction.wordCount) := if_pos stands.fits
  exact ⟨_, present, length_words? _ _ _ present⟩

/-- The words of an instruction are those from its offset on, as many as it counts. -/
theorem word?_eq_some_iff {index : Nat} {word : UInt32} :
    instruction.word? words index = some word ↔
      instruction.stop ≤ words.length ∧ index < instruction.wordCount ∧
        words[instruction.offset + index]? = some word := by
  by_cases fits : instruction.stop ≤ words.length
  · have present : instruction.words? words =
        some ((words.drop instruction.offset).take instruction.wordCount) := if_pos fits
    rw [word?_of_present present, List.getElem?_take]
    by_cases within : index < instruction.wordCount
    · simp only [within, ↓reduceIte, List.getElem?_drop, fits, true_and]
    · simp only [within, ↓reduceIte, false_and, and_false, reduceCtorEq]
  · simp only [word?, words?, fits, ↓reduceIte, Option.bind_none, reduceCtorEq, false_and]

/-- An instruction of one opcode has no other. -/
theorem hasOpcode_of_ne {opcode other : UInt32} (has : instruction.hasOpcode opcode = true)
    (different : opcode ≠ other) : instruction.hasOpcode other = false := by
  rw [hasOpcode, beq_iff_eq] at has
  rw [hasOpcode, has, beq_eq_false_iff_ne]
  exact different

/-- Whether a word of an instruction ends a literal text. -/
def EndsText (instruction : Instruction) (words : List UInt32) (index : Nat) : Prop :=
  ∃ word, instruction.word? words index = some word ∧ word >>> 24 = 0

/-- Whether a word is left behind the text that begins at the fourth word. -/
def HasInterface (instruction : Instruction) (words : List UInt32) : Prop :=
  ∃ index, 3 ≤ index ∧ instruction.EndsText words index ∧
    (∀ earlier, 3 ≤ earlier → earlier < index → ¬ instruction.EndsText words earlier) ∧
    index + 1 < instruction.wordCount

end Instruction

/-- Interface ids are what is left behind the first word that ends the text. -/
theorem interfaceIds_eq_drop (entryPoint : List UInt32) :
    interfaceIds entryPoint =
      entryPoint.drop (3 + (entryPoint.drop 3).findIdx (fun word => !continuesText word) + 1) := by
  rw [interfaceIds, List.dropWhile_eq_drop_findIdx_not, List.drop_drop, List.drop_drop,
    Nat.add_assoc]

/-- Where the text of an entry point ends, counted from the fourth word, where it begins. -/
theorem endsText_iff {instruction : Instruction} {words found : List UInt32}
    (present : instruction.words? words = some found) (place : Nat) :
    instruction.EndsText words (3 + place) ↔
      ∃ word, (found.drop 3)[place]? = some word ∧ (!continuesText word) = true := by
  simp [Instruction.EndsText, Instruction.word?_of_present present, continuesText]

/-- There are interface ids exactly when a word follows the first end of a text.
The index of that end in the text is the one the ids are dropped by. -/
theorem hasInterface_iff {instruction : Instruction} {words found : List UInt32}
    (present : instruction.words? words = some found) :
    instruction.HasInterface words ↔ interfaceIds found ≠ [] := by
  have length := Instruction.length_words? _ _ _ present
  have ends := endsText_iff present
  rw [interfaceIds_eq_drop, ne_eq, List.drop_eq_nil_iff, Nat.not_le, length]
  constructor
  · rintro ⟨index, begins, ending, first, follows⟩
    obtain ⟨skipped, rfl⟩ := Nat.exists_eq_add_of_le begins
    obtain ⟨word, read, stops⟩ := (ends skipped).mp ending
    obtain ⟨inside, rfl⟩ := List.getElem?_eq_some_iff.mp read
    have bound : (found.drop 3).findIdx (fun word => !continuesText word) ≤ skipped := by
      apply Nat.le_of_not_lt
      intro before
      exact Bool.eq_false_iff.mp (List.not_of_lt_findIdx before) stops
    omega
  · intro follows
    have inside : (found.drop 3).findIdx (fun word => !continuesText word) <
        (found.drop 3).length := by
      rw [List.length_drop]
      omega
    have stops := List.findIdx_getElem (w := inside)
    refine ⟨_, Nat.le_add_right 3 _,
      (ends _).mpr ⟨_, List.getElem?_eq_getElem inside, stops⟩, ?_, follows⟩
    intro earlier begins before ending
    obtain ⟨skipped, rfl⟩ := Nat.exists_eq_add_of_le begins
    obtain ⟨word, read, stops⟩ := (ends skipped).mp ending
    obtain ⟨_, rfl⟩ := List.getElem?_eq_some_iff.mp read
    exact Bool.eq_false_iff.mp (List.not_of_lt_findIdx (Nat.lt_of_add_lt_add_left before)) stops

/-- What a location decoration says is its second, third and fourth word. -/
theorem LocationDecoration.read?_eq_some_iff {words : List UInt32} {instruction : Instruction}
    {decoration : LocationDecoration} :
    LocationDecoration.read? words instruction = some decoration ↔
      instruction.word? words 1 = some decoration.target ∧
        instruction.word? words 2 = some locationDecoration ∧
        instruction.word? words 3 = some decoration.location ∧
        decoration.offset = instruction.offset + 3 := by
  cases present : instruction.words? words with
  | none => simp [LocationDecoration.read?, Instruction.word?, present]
  | some found =>
    simp only [LocationDecoration.read?, Instruction.word?_of_present present, present]
    rcases found with _ | ⟨_, _ | ⟨target, _ | ⟨kind, _ | ⟨location, rest⟩⟩⟩⟩
    all_goals simp
    rcases decoration with ⟨decorated, value, place⟩
    by_cases same : kind = locationDecoration
    · simp only [same, LocationDecoration.mk.injEq, true_and]
      constructor
      · rintro ⟨rfl, rfl, rfl⟩
        exact ⟨rfl, rfl, rfl⟩
      · rintro ⟨rfl, rfl, rfl⟩
        exact ⟨rfl, rfl, rfl⟩
    · simp [same]

/-- What a variable says is its third and fourth word. -/
theorem VariableDeclaration.read?_eq_some_iff {words : List UInt32} {instruction : Instruction}
    {declaration : VariableDeclaration} :
    VariableDeclaration.read? words instruction = some declaration ↔
      instruction.word? words 2 = some declaration.id ∧
        instruction.word? words 3 = some declaration.storageClass := by
  cases present : instruction.words? words with
  | none => simp [VariableDeclaration.read?, Instruction.word?, present]
  | some found =>
    simp only [VariableDeclaration.read?, Instruction.word?_of_present present, present]
    rcases declaration with ⟨declared, number⟩
    rcases found with _ | ⟨_, _ | ⟨_, _ | ⟨id, _ | ⟨storageClass, rest⟩⟩⟩⟩
    all_goals simp

/-- A variable that stands in the words is read exactly when it has four words. -/
theorem VariableDeclaration.read?_isSome_iff {words : List UInt32} {instruction : Instruction}
    (stands : instruction.StandsIn words) :
    (VariableDeclaration.read? words instruction).isSome = true ↔ 4 ≤ instruction.wordCount := by
  obtain ⟨found, present, length⟩ := stands.present
  simp only [VariableDeclaration.read?, present, ← length]
  rcases found with _ | ⟨_, _ | ⟨_, _ | ⟨_, _ | ⟨_, rest⟩⟩⟩⟩
  all_goals simp

namespace EntryPoint

/-- An entry point that stands in the words is read exactly when it has four words,
the last of them the first of its text. -/
theorem read?_isSome_iff {words : List UInt32} {instruction : Instruction}
    (stands : instruction.StandsIn words) :
    (read? words instruction).isSome = true ↔ 4 ≤ instruction.wordCount := by
  obtain ⟨found, present, length⟩ := stands.present
  simp only [read?, ofWords?, present, ← length]
  rcases found with _ | ⟨_, _ | ⟨_, _ | ⟨_, _ | ⟨_, rest⟩⟩⟩⟩
  all_goals simp

/-- What an entry point says is its second word and what is behind its text. -/
theorem of_read? {words found : List UInt32} {instruction : Instruction} {entryPoint : EntryPoint}
    (present : instruction.words? words = some found)
    (read : read? words instruction = some entryPoint) :
    instruction.word? words 1 = some entryPoint.executionModel ∧
      entryPoint.interface = interfaceIds found := by
  simp only [read?, ofWords?, present] at read
  rw [Instruction.word?_of_present present]
  split at read
  next =>
    obtain rfl := Option.some.inj read
    exact ⟨rfl, rfl⟩
  next => exact absurd read (Option.some_ne_none _).symm

end EntryPoint

end RenderAssets.Spirv
