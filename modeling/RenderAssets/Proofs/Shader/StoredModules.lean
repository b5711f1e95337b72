import Mathlib.Logic.Basic
import Mathlib.Tactic.SplitIfs
import RenderAssets.Shader.Binary

/-!
# Modules stored in either byte order

Turning round every group of four bytes turns round every word. Loading undoes this
wherever the first word shows it, so a module and its counterpart in the opposite order
load alike. Turning round twice changes nothing, and the magic number is not its own
counterpart; hence at most one of the two readings of some bytes can be a module.

Which bytes are a module is decided by their number and by the first four of them alone.
-/

namespace RenderAssets

namespace Spirv

/-- The bytes with every group of four in the opposite order. Up to three bytes left at
the end stay as they are. -/
def reverseGroups : List UInt8 → List UInt8
  | lowest :: low :: high :: highest :: rest =>
    highest :: high :: low :: lowest :: reverseGroups rest
  | rest => rest

/-- Bytes that do not begin with a group of four are fewer than four. -/
theorem length_lt_of_no_group {bytes : List UInt8}
    (short : ∀ lowest low high highest rest,
      bytes = lowest :: low :: high :: highest :: rest → False) : bytes.length < 4 := by
  match bytes, short with
  | [], _ | [_], _ | [_, _], _ | [_, _, _], _ => simp
  | lowest :: low :: high :: highest :: rest, short =>
    exact (short lowest low high highest rest rfl).elim

/-- Turning groups round keeps the number of bytes. -/
theorem length_reverseGroups (bytes : List UInt8) :
    (reverseGroups bytes).length = bytes.length := by
  fun_induction reverseGroups bytes with
  | case1 lowest low high highest rest inductionHypothesis => simp [inductionHypothesis]
  | case2 rest short => rfl

/-- There is one word for every four bytes. -/
theorem length_wordsOfBytes (bytes : List UInt8) :
    (wordsOfBytes bytes).length = bytes.length / 4 := by
  fun_induction wordsOfBytes bytes with
  | case1 lowest low high highest rest inductionHypothesis =>
    simp only [List.length_cons, inductionHypothesis]
    omega
  | case2 rest short => exact (Nat.div_eq_of_lt (length_lt_of_no_group short)).symm

/-- Fewer than four bytes hold no word. -/
theorem wordsOfBytes_of_short {bytes : List UInt8} (short : bytes.length < 4) :
    wordsOfBytes bytes = [] := by
  rw [← List.length_eq_zero_iff, length_wordsOfBytes, Nat.div_eq_of_lt short]

/-- Turning a word round packs its bytes in the opposite order. -/
theorem reverseWord_wordOfBytes (lowest low high highest : UInt8) :
    reverseWord (wordOfBytes lowest low high highest) = wordOfBytes highest high low lowest := by
  have packed := bytesOfWord_wordOfBytes lowest low high highest
  simp only [bytesOfWord, List.cons.injEq, and_true] at packed
  obtain ⟨first, second, third, fourth⟩ := packed
  rw [reverseWord, first, second, third, fourth]

/-- Turning a word round twice gives it back. -/
theorem reverseWord_reverseWord (word : UInt32) : reverseWord (reverseWord word) = word := by
  have once : reverseWord word = wordOfBytes (word >>> 24).toUInt8 (word >>> 16).toUInt8
    (word >>> 8).toUInt8 word.toUInt8 := rfl
  rw [once, reverseWord_wordOfBytes, wordOfBytes_bytes]

/-- Turning round is its own inverse, so it can be moved across an equation. -/
theorem reverseWord_eq_iff (word other : UInt32) :
    reverseWord word = other ↔ word = reverseWord other := by
  constructor
  · rintro rfl
    exact (reverseWord_reverseWord word).symm
  · rintro rfl
    exact reverseWord_reverseWord other

/-- Turning the groups of some bytes round turns their words round. -/
theorem wordsOfBytes_reverseGroups (bytes : List UInt8) :
    wordsOfBytes (reverseGroups bytes) = (wordsOfBytes bytes).map reverseWord := by
  fun_induction reverseGroups bytes with
  | case1 lowest low high highest rest inductionHypothesis =>
    simp only [wordsOfBytes, List.map_cons, reverseWord_wordOfBytes, inductionHypothesis]
  | case2 rest short =>
    rw [wordsOfBytes_of_short (length_lt_of_no_group short), List.map_nil]

/-- No two words have the same bytes. -/
theorem bytesOfWord_inj {word other : UInt32} :
    bytesOfWord word = bytesOfWord other ↔ word = other := by
  constructor
  · intro same
    have read (word : UInt32) : wordsOfBytes (bytesOfWord word) = [word] := by
      simpa [bytesOfWords] using wordsOfBytes_bytesOfWords [word]
    simpa [read] using congrArg wordsOfBytes same
  · exact congrArg bytesOfWord

/-- The first word is known by the first four bytes. -/
theorem head?_wordsOfBytes_eq_some_iff (bytes : List UInt8) (word : UInt32) :
    (wordsOfBytes bytes).head? = some word ↔ bytes.take 4 = bytesOfWord word := by
  fun_cases wordsOfBytes bytes with
  | case1 lowest low high highest rest =>
    simp [← bytesOfWord_wordOfBytes lowest low high highest, bytesOfWord_inj]
  | case2 rest short =>
    have few := length_lt_of_no_group short
    have unequal : bytes.take 4 ≠ bytesOfWord word := by
      intro same
      have counts := congrArg List.length same
      simp only [List.length_take, bytesOfWord, List.length_cons, List.length_nil] at counts
      omega
    simp [unequal]

/-- Words are a module if there are enough of them and the first is the magic number. -/
theorem isModule_iff (words : List UInt32) :
    isModule words = true ↔ 5 ≤ words.length ∧ words.head? = some magicNumber := by
  rw [isModule, Bool.and_eq_true, decide_eq_true_iff, beq_iff_eq, headerWordCount]

end Spirv

namespace ShaderBinary

open Spirv

/-- The first four bytes of a module, the least significant byte first. -/
def magicBytes : List UInt8 := [0x03, 0x02, 0x23, 0x07]

/-- The first four bytes of a module in the opposite byte order. -/
def reversedMagicBytes : List UInt8 := [0x07, 0x23, 0x02, 0x03]

/-- The first word of bytes is the magic number in one order or the other. -/
theorem head?_magic_iff (bytes : List UInt8) :
    ((wordsOfBytes bytes).head? = some magicNumber ↔ bytes.take 4 = magicBytes) ∧
      (IsReversed (wordsOfBytes bytes) ↔ bytes.take 4 = reversedMagicBytes) := by
  have proper : bytesOfWord magicNumber = magicBytes := by decide
  have reversed : bytesOfWord (reverseWord magicNumber) = reversedMagicBytes := by decide
  constructor
  · rw [head?_wordsOfBytes_eq_some_iff, proper]
  · rw [IsReversed, head?_wordsOfBytes_eq_some_iff, reversed]

/-- A first word that is turned round is the magic number exactly if it was the magic
number in the opposite order. -/
theorem head?_map_reverseWord_eq_some_iff (words : List UInt32) (word : UInt32) :
    (words.map reverseWord).head? = some word ↔ words.head? = some (reverseWord word) := by
  cases words with
  | nil => simp
  | cons first rest => simp [reverseWord_eq_iff]

/-- The magic number is not its own counterpart. -/
theorem not_isReversed_of_magic {words : List UInt32} (magic : words.head? = some magicNumber) :
    ¬ IsReversed words := by
  rw [IsReversed, magic]
  decide

/-- Words put in order are a module exactly if they begin with the magic number in one of
the orders. -/
theorem isModule_inOrder_iff (words : List UInt32) :
    isModule (inOrder words) = true ↔
      5 ≤ words.length ∧ (words.head? = some magicNumber ∨ IsReversed words) := by
  by_cases reversed : IsReversed words
  · rw [inOrder, if_pos reversed, isModule_iff, head?_map_reverseWord_eq_some_iff]
    simp only [List.length_map, reversed, or_true, and_true]
    exact and_iff_left reversed
  · rw [inOrder, if_neg reversed, isModule_iff]
    simp only [reversed, or_false]

/-- Words and their counterparts are put into the same order if they are a module, and
neither is one otherwise. -/
theorem inOrder_map_reverseWord (words : List UInt32) :
    (isModule (inOrder (words.map reverseWord)) = true ↔ isModule (inOrder words) = true) ∧
      (isModule (inOrder words) = true → inOrder (words.map reverseWord) = inOrder words) := by
  have twice : (words.map reverseWord).map reverseWord = words := by
    simp [Function.comp_def, reverseWord_reverseWord]
  have proper : IsReversed (words.map reverseWord) ↔ words.head? = some magicNumber := by
    rw [IsReversed, head?_map_reverseWord_eq_some_iff, reverseWord_reverseWord]
  constructor
  · rw [isModule_inOrder_iff, isModule_inOrder_iff, proper, head?_map_reverseWord_eq_some_iff,
      List.length_map, or_comm]
    rfl
  · intro accepted
    rcases (isModule_inOrder_iff words).mp accepted with ⟨_, magic | reversed⟩
    · rw [inOrder, if_pos (proper.mpr magic), twice, inOrder,
        if_neg (not_isReversed_of_magic magic)]
    · have unlike : ¬ IsReversed (words.map reverseWord) := fun again =>
        not_isReversed_of_magic (proper.mp again) reversed
      rw [inOrder, if_neg unlike, inOrder, if_pos reversed]

/-- Bytes begin a module: they reach past its header, and the first four of them are the
magic number in one order or the other. -/
def BeginsModule (bytes : List UInt8) : Prop :=
  20 ≤ bytes.length ∧ (bytes.take 4 = magicBytes ∨ bytes.take 4 = reversedMagicBytes)

instance (bytes : List UInt8) : Decidable (BeginsModule bytes) :=
  inferInstanceAs (Decidable (_ ∧ _))

/-- The words of bytes, put in order, are a module exactly if the bytes begin one. Five
words take twenty bytes. -/
theorem isModule_iff_beginsModule (bytes : List UInt8) :
    isModule (inOrder (wordsOfBytes bytes)) = true ↔ BeginsModule bytes := by
  obtain ⟨proper, reversed⟩ := head?_magic_iff bytes
  have room : 5 ≤ (wordsOfBytes bytes).length ↔ 20 ≤ bytes.length := by
    rw [length_wordsOfBytes]
    omega
  rw [isModule_inOrder_iff, proper, reversed, room, BeginsModule]

/-- Loading has three outcomes: the bytes are not whole words, or they begin no module,
or their words are taken up in order. -/
theorem ofBytes_eq (bytes : List UInt8) :
    ofBytes bytes =
      if bytes.length % 4 ≠ 0 then .error (.partialWord bytes.length)
      else if BeginsModule bytes then .ok (ofWords (inOrder (wordsOfBytes bytes)))
      else .error .missingHeader := by
  simp only [ofBytes, isModule_iff_beginsModule]

/-- Putting words in order keeps their number. -/
theorem length_inOrder (words : List UInt32) : (inOrder words).length = words.length := by
  rw [inOrder]
  split <;> simp

/-- Turning the groups of some bytes round changes nothing about how they load. -/
theorem ofBytes_reverseGroups (bytes : List UInt8) :
    ofBytes (reverseGroups bytes) = ofBytes bytes := by
  obtain ⟨alike, same⟩ := inOrder_map_reverseWord (wordsOfBytes bytes)
  rw [ofBytes, ofBytes, length_reverseGroups, wordsOfBytes_reverseGroups]
  by_cases accepted : isModule (inOrder (wordsOfBytes bytes)) = true
  · rw [same accepted]
  · rw [if_neg accepted, if_neg (mt alike.mp accepted)]

/-- Only the number of the bytes can be an impossible parameter. -/
theorem ofBytes_parameter_iff (bytes : List UInt8) :
    (∃ failure, ofBytes bytes = .error failure ∧ failure.failureClass = .parameter) ↔
      bytes.length % 4 ≠ 0 := by
  rw [ofBytes_eq]
  split_ifs with partialWord begins
  · simp [partialWord, ShaderError.failureClass]
  · simp [partialWord]
  · simp [partialWord, ShaderError.failureClass]

/-- Whole words are no shader code exactly if they begin no module. -/
theorem ofBytes_shaderCode_iff (bytes : List UInt8) :
    (∃ failure, ofBytes bytes = .error failure ∧ failure.failureClass = .shaderCode) ↔
      bytes.length % 4 = 0 ∧ ¬ BeginsModule bytes := by
  rw [ofBytes_eq]
  split_ifs with partialWord begins
  · simp [partialWord, ShaderError.failureClass]
  · simp [begins]
  · simp [not_not.mp partialWord, begins, ShaderError.failureClass]

/-- Whole words that begin a module are loaded, word for word and without a label. -/
theorem ofBytes_loads_iff (bytes : List UInt8) :
    (∃ shader, ofBytes bytes = .ok shader ∧ shader.label? = none ∧
        shader.words.length = bytes.length / 4 ∧ shader.isSpirv = true) ↔
      bytes.length % 4 = 0 ∧ BeginsModule bytes := by
  rw [ofBytes_eq]
  split_ifs with partialWord begins
  · simp [partialWord]
  · refine iff_of_true ⟨_, rfl, rfl, ?_, (isModule_iff_beginsModule bytes).mpr begins⟩
      ⟨not_not.mp partialWord, begins⟩
    exact (length_inOrder _).trans (length_wordsOfBytes bytes)
  · simp [begins]

/-- Loading accepts exactly the modules of either byte order. Bytes that are not whole
words have an impossible length; whole words that begin no module are no shader code; all
else is loaded, without a label, one word for every four bytes, and is a module.

Bytes and their counterparts in the opposite order load alike, and what workarounds make
of the two is the same. -/
theorem ofBytes_accepts_both_orders (bytes : List UInt8) :
    ((∃ failure, ofBytes bytes = .error failure ∧ failure.failureClass = .parameter) ↔
        bytes.length % 4 ≠ 0) ∧
      ((∃ failure, ofBytes bytes = .error failure ∧ failure.failureClass = .shaderCode) ↔
        bytes.length % 4 = 0 ∧ (bytes.length < 20 ∨
          (bytes.take 4 ≠ [0x03, 0x02, 0x23, 0x07] ∧ bytes.take 4 ≠ [0x07, 0x23, 0x02, 0x03]))) ∧
      ((∃ shader, ofBytes bytes = .ok shader ∧ shader.label? = none ∧
          shader.words.length = bytes.length / 4 ∧ shader.isSpirv = true) ↔
        bytes.length % 4 = 0 ∧ 20 ≤ bytes.length ∧
          (bytes.take 4 = [0x03, 0x02, 0x23, 0x07] ∨ bytes.take 4 = [0x07, 0x23, 0x02, 0x03])) ∧
      ofBytes (reverseGroups bytes) = ofBytes bytes ∧
      ∀ workarounds, (ofBytes (reverseGroups bytes)).map (·.applyWorkarounds workarounds) =
        (ofBytes bytes).map (·.applyWorkarounds workarounds) := by
  have same := ofBytes_reverseGroups bytes
  have unlike : ¬ BeginsModule bytes ↔ bytes.length < 20 ∨
      (bytes.take 4 ≠ magicBytes ∧ bytes.take 4 ≠ reversedMagicBytes) := by
    rw [BeginsModule, not_and_or, not_or, Nat.not_le]
  refine ⟨ofBytes_parameter_iff bytes, ?_, ofBytes_loads_iff bytes, same,
    fun workarounds => by rw [same]⟩
  rw [ofBytes_shaderCode_iff, unlike]
  rfl

/-- The smallest module loads from either order, and with a byte less it ends in part of a word. -/
example :
    ofBytes [3, 2, 0x23, 7, 0, 0, 1, 0, 0, 0, 0, 0, 1, 0, 0, 0, 0, 0, 0, 0] =
        .ok (ofWords [magicNumber, 0x10000, 0, 1, 0]) ∧
      ofBytes [7, 0x23, 2, 3, 0, 1, 0, 0, 0, 0, 0, 0, 0, 0, 0, 1, 0, 0, 0, 0] =
        .ok (ofWords [magicNumber, 0x10000, 0, 1, 0]) ∧
      ofBytes [7, 0x23, 2, 3, 0, 1, 0, 0, 0, 0, 0, 0, 0, 0, 0, 1, 0, 0, 0] =
        .error (.partialWord 19) :=
  ⟨rfl, rfl, rfl⟩

end ShaderBinary

end RenderAssets
