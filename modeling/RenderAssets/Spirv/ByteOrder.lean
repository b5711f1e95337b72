/-!
# Words and bytes

A word is stored as four bytes, the least significant first. A module stored the
other way round holds the same words with the bytes of each reversed. Packing and
unpacking are inverse to each other on whole words.
-/

namespace RenderAssets.Spirv

/-- The word of four bytes, the least significant first. -/
def wordOfBytes (lowest low high highest : UInt8) : UInt32 :=
  lowest.toUInt32 ||| (low.toUInt32 <<< 8) ||| (high.toUInt32 <<< 16) |||
    (highest.toUInt32 <<< 24)

/-- The four bytes of a word, the least significant first. -/
def bytesOfWord (word : UInt32) : List UInt8 :=
  [word.toUInt8, (word >>> 8).toUInt8, (word >>> 16).toUInt8, (word >>> 24).toUInt8]

/-- The word with its four bytes in the opposite order. -/
def reverseWord (word : UInt32) : UInt32 :=
  wordOfBytes (word >>> 24).toUInt8 (word >>> 16).toUInt8 (word >>> 8).toUInt8 word.toUInt8

/-- The whole words that bytes begin with. Up to three bytes left at the end form
no word. -/
def wordsOfBytes : List UInt8 → List UInt32
  | lowest :: low :: high :: highest :: rest =>
    wordOfBytes lowest low high highest :: wordsOfBytes rest
  | _ => []

/-- The bytes of words one after the other. -/
def bytesOfWords (words : List UInt32) : List UInt8 := words.flatMap bytesOfWord

/-- The bytes of a literal text: the text, one zero byte to end it, and further
zero bytes up to a whole word. -/
def literalBytes (text : List UInt8) : List UInt8 :=
  text ++ List.replicate (4 - text.length % 4) 0

/-- A literal text in words. -/
def encodeLiteral (text : List UInt8) : List UInt32 := wordsOfBytes (literalBytes text)

/-- Unpacking a word and packing its bytes gives the word back. Every bit is in
exactly one of the bytes. -/
theorem wordOfBytes_bytes (word : UInt32) :
    wordOfBytes word.toUInt8 (word >>> 8).toUInt8 (word >>> 16).toUInt8 (word >>> 24).toUInt8 =
      word := by
  apply UInt32.toBitVec_inj.mp
  apply BitVec.eq_of_getLsbD_eq
  intro bit inside
  simp [wordOfBytes, -UInt32.toUInt32_toUInt8]
  grind

/-- Packing bytes and unpacking the word gives the bytes back. The other three
bytes are shifted out of the way of each. -/
theorem bytesOfWord_wordOfBytes (lowest low high highest : UInt8) :
    bytesOfWord (wordOfBytes lowest low high highest) = [lowest, low, high, highest] := by
  simp only [bytesOfWord, List.cons.injEq, and_true]
  refine ⟨?_, ?_, ?_, ?_⟩
  all_goals
    apply UInt8.toBitVec_inj.mp
    apply BitVec.eq_of_getLsbD_eq
    intro bit inside
  · simp [wordOfBytes]
  · simp [wordOfBytes]
    grind
  · simp [wordOfBytes]
    grind
  · simp [wordOfBytes]
    grind

/-- Unpacking words and packing the bytes gives the words back. -/
theorem wordsOfBytes_bytesOfWords (words : List UInt32) :
    wordsOfBytes (bytesOfWords words) = words := by
  induction words with
  | nil => rfl
  | cons word rest inductionHypothesis =>
    simp only [bytesOfWords, List.flatMap_cons, bytesOfWord, List.cons_append, List.nil_append,
      wordsOfBytes] at *
    rw [inductionHypothesis, wordOfBytes_bytes]

end RenderAssets.Spirv
