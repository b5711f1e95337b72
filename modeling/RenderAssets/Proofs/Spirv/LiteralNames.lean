import Mathlib.Data.List.TakeWhile
import RenderAssets.Spirv.EntryPoint
import RenderAssets.Proofs.Shader.ByteForms

/-!
# Interfaces behind names

The name of an entry point is a literal text. Its bytes go into words four at a time, and the
zero bytes that end it fill up the last word. The highest byte of a word is the last one of
its group: in the last word of a text this is one of the zero bytes, whether the text fills
the words before or not, and in every other word it is a byte of the text. So a text without
a zero byte ends where it is taken to end, and the words behind it are the interface, however
much they look like a text themselves.
-/

namespace RenderAssets.Spirv

section Words

/-- The highest byte of a word is what is left of it when the others are shifted out. -/
theorem toUInt8_highest_eq_zero_iff (word : UInt32) :
    (word >>> 24).toUInt8 = 0 ↔ word >>> 24 = 0 := by
  have small : (word >>> 24).toNat < 256 := by
    have bound := word.toNat_lt
    rw [UInt32.toNat_shiftRight, Nat.shiftRight_eq_div_pow]
    exact Nat.div_lt_of_lt_mul bound
  rw [← UInt8.toNat_inj, ← UInt32.toNat_inj, UInt32.toNat_toUInt8, Nat.mod_eq_of_lt small]
  rfl

/-- A word continues a text unless the last of its four bytes is zero. -/
theorem continuesText_wordOfBytes (lowest low high highest : UInt8) :
    continuesText (wordOfBytes lowest low high highest) = (highest != 0) := by
  have packed := bytesOfWord_wordOfBytes lowest low high highest
  simp only [bytesOfWord, List.cons.injEq, and_true] at packed
  obtain ⟨_, _, _, last⟩ := packed
  rw [Bool.eq_iff_iff, continuesText, bne_iff_ne, bne_iff_ne, ne_eq, ne_eq, ← last,
    toUInt8_highest_eq_zero_iff, last]

end Words

section Texts

/-- Four bytes of a text fill a word, and the rest is encoded as if it stood alone. -/
theorem encodeLiteral_group (lowest low high highest : UInt8) (rest : List UInt8) :
    encodeLiteral (lowest :: low :: high :: highest :: rest) =
      wordOfBytes lowest low high highest :: encodeLiteral rest := by
  simp only [encodeLiteral, literalBytes, List.length_cons, Nat.add_assoc, Nat.reduceAdd,
    Nat.add_mod_right, List.cons_append, wordsOfBytes]

/-- Fewer than four bytes leave room in their word for the zero byte that ends them. -/
theorem encodeLiteral_of_short {text : List UInt8} (short : text.length < 4) :
    ∃ lowest low high, encodeLiteral text = [wordOfBytes lowest low high 0] := by
  match text, short with
  | [], _ | [_], _ | [_, _], _ | [_, _, _], _ => exact ⟨_, _, _, rfl⟩

/-- Only the last word of a text does not continue it. The text goes four bytes at a time. -/
theorem encodeLiteral_ends {text : List UInt8} (unended : 0 ∉ text) :
    ∃ front last, encodeLiteral text = front ++ [last] ∧
      (∀ word ∈ front, continuesText word = true) ∧ continuesText last = false := by
  fun_induction wordsOfBytes text with
  | case1 lowest low high highest rest inductionHypothesis =>
    simp only [List.mem_cons, not_or] at unended
    obtain ⟨_, _, _, notZero, restUnended⟩ := unended
    obtain ⟨front, last, encoded, continued, ended⟩ := inductionHypothesis restUnended
    refine ⟨wordOfBytes lowest low high highest :: front, last, ?_, ?_, ended⟩
    · rw [encodeLiteral_group, encoded, List.cons_append]
    · rw [List.forall_mem_cons, continuesText_wordOfBytes, bne_iff_ne]
      exact ⟨Ne.symm notZero, continued⟩
  | case2 rest short =>
    obtain ⟨lowest, low, high, encoded⟩ := encodeLiteral_of_short (length_lt_of_no_group short)
    refine ⟨[], wordOfBytes lowest low high 0, encoded, fun _ none => ?_, ?_⟩
    · exact absurd none List.not_mem_nil
    · rw [continuesText_wordOfBytes]
      rfl

/-- A text is stored as its bytes, one zero byte, and as few more of them as fill the word. -/
theorem bytesOfWords_encodeLiteral (text : List UInt8) :
    ∃ padding < 4, (text.length + 1 + padding) % 4 = 0 ∧
      bytesOfWords (encodeLiteral text) = text ++ 0 :: List.replicate padding 0 := by
  have fill : 4 - text.length % 4 = 3 - text.length % 4 + 1 := by omega
  have whole : (literalBytes text).length % 4 = 0 := by
    rw [literalBytes, List.length_append, List.length_replicate]
    omega
  refine ⟨3 - text.length % 4, by omega, by omega, ?_⟩
  rw [encodeLiteral, bytesOfWords_wordsOfBytes whole, literalBytes, fill, List.replicate_succ]

end Texts

/-- The interface of an entry point with a name that has no zero byte is what stands behind the
name. The name is stored with a zero byte at its end and with as few more of them as make
whole words. Where no word ends a name, there is no interface. -/
theorem interface_stands_behind_name :
    (∀ name : List UInt8, 0 ∉ name → ∀ (first second third : UInt32) (ids : List UInt32),
      interfaceIds ([first, second, third] ++ encodeLiteral name ++ ids) = ids) ∧
    (∀ name : List UInt8, ∃ padding < 4, (name.length + 1 + padding) % 4 = 0 ∧
      bytesOfWords (encodeLiteral name) = name ++ 0 :: List.replicate padding 0) ∧
    ∀ words : List UInt32,
      (∀ (index : Nat) (word : UInt32), 3 ≤ index → words[index]? = some word →
        word >>> 24 ≠ 0) → interfaceIds words = [] := by
  refine ⟨?_, bytesOfWords_encodeLiteral, ?_⟩
  · intro name unended first second third ids
    obtain ⟨front, last, encoded, continued, ended⟩ := encodeLiteral_ends unended
    have behind : ([first, second, third] ++ encodeLiteral name ++ ids).drop 3 =
        front ++ (last :: ids) := by
      rw [encoded, List.append_assoc, List.append_assoc, List.singleton_append]
      rfl
    rw [interfaceIds, behind, List.dropWhile_append_of_pos continued,
      List.dropWhile_cons_of_neg (by rw [ended]; exact Bool.false_ne_true)]
    rfl
  · intro words unended
    have continued : ∀ word ∈ words.drop 3, continuesText word = true := by
      intro word listed
      obtain ⟨place, found⟩ := List.mem_iff_getElem?.mp listed
      rw [List.getElem?_drop] at found
      exact bne_iff_ne.mpr (unended (3 + place) word (Nat.le_add_right 3 place) found)
    rw [interfaceIds, List.dropWhile_eq_nil_iff.mpr continued, List.drop_nil]

/-- A name of four letters fills a word and needs another one for the zero byte. The interface
behind it begins with the same four letters, and is found all the same; without the zero byte
there is none. -/
theorem interface_stands_behind_main :
    (0 : UInt8) ∉ [0x6d, 0x61, 0x69, 0x6e] ∧
      encodeLiteral [0x6d, 0x61, 0x69, 0x6e] = [0x6e69616d, 0] ∧
      interfaceIds [0, 0, 1, 0x6e69616d, 0, 0x6e69616d, 11] = [0x6e69616d, 11] ∧
      (∀ (index : Nat) (word : UInt32), 3 ≤ index →
        [0, 0, 1, 0x6e69616d, 0x6e69616d][index]? = some word → word >>> 24 ≠ 0) ∧
      interfaceIds [0, 0, 1, 0x6e69616d, 0x6e69616d] = [] := by
  obtain ⟨named, _, unnamed⟩ := interface_stands_behind_name
  have unended : (0 : UInt8) ∉ [0x6d, 0x61, 0x69, 0x6e] := by decide
  have stored : encodeLiteral [0x6d, 0x61, 0x69, 0x6e] = [0x6e69616d, 0] := by cbv
  have behind := named _ unended 0 0 1 [0x6e69616d, 11]
  rw [stored] at behind
  have continued : ∀ (index : Nat) (word : UInt32), 3 ≤ index →
      [0, 0, 1, 0x6e69616d, 0x6e69616d][index]? = some word → word >>> 24 ≠ 0 := by
    intro index word later found
    have listed : word ∈ ([0, 0, 1, 0x6e69616d, 0x6e69616d] : List UInt32).drop 3 := by
      refine List.mem_iff_getElem?.mpr ⟨index - 3, ?_⟩
      rwa [List.getElem?_drop, Nat.add_sub_cancel' later]
    obtain rfl : word = 0x6e69616d := by simpa using listed
    decide
  exact ⟨unended, stored, behind, continued, unnamed _ continued⟩

end RenderAssets.Spirv
