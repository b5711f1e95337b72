import RenderAssets.Proofs.Shader.StoredModules

/-!
# Shaders as words and as bytes

A shader is written out with the least significant byte of each word first, whatever its
words are. Loading may turn the words round and writing never does, so the two are
inverse to each other only on modules: the words of a shader come back from its bytes
exactly if they are a module, and bytes that load come back from the shader exactly if
they were stored in the order in which it is written.
-/

namespace RenderAssets

namespace Spirv

/-- A word takes four bytes. -/
theorem length_bytesOfWords (words : List UInt32) :
    (bytesOfWords words).length = 4 * words.length := by
  induction words with
  | nil => rfl
  | cons word rest inductionHypothesis =>
    rw [bytesOfWords, List.flatMap_cons, ← bytesOfWords, List.length_append,
      inductionHypothesis, List.length_cons]
    simp only [bytesOfWord, List.length_cons, List.length_nil]
    omega

/-- Packing whole words and unpacking them gives the bytes back. The bytes go four at a
time, so what is left has whole words too. -/
theorem bytesOfWords_wordsOfBytes {bytes : List UInt8} (whole : bytes.length % 4 = 0) :
    bytesOfWords (wordsOfBytes bytes) = bytes := by
  fun_induction wordsOfBytes bytes with
  | case1 lowest low high highest rest inductionHypothesis =>
    have restWhole : rest.length % 4 = 0 := by
      simp only [List.length_cons] at whole
      omega
    rw [bytesOfWords, List.flatMap_cons, ← bytesOfWords, inductionHypothesis restWhole,
      bytesOfWord_wordOfBytes]
    rfl
  | case2 rest short =>
    have few := length_lt_of_no_group short
    exact (List.eq_nil_of_length_eq_zero (by omega)).symm

/-- Words that are turned round have their groups of bytes turned round. -/
theorem bytesOfWords_map_reverseWord (words : List UInt32) :
    bytesOfWords (words.map reverseWord) = reverseGroups (bytesOfWords words) := by
  induction words with
  | nil => rfl
  | cons word rest inductionHypothesis =>
    have turned : bytesOfWord (reverseWord word) = (bytesOfWord word).reverse := by
      rw [reverseWord, bytesOfWord_wordOfBytes]
      rfl
    simp only [List.map_cons, bytesOfWords, List.flatMap_cons, turned] at inductionHypothesis ⊢
    rw [inductionHypothesis]
    rfl

end Spirv

namespace ShaderBinary

open Spirv

/-- Words that begin with the magic number are in order as they are. -/
theorem inOrder_of_isModule {words : List UInt32} (sound : isModule words = true) :
    inOrder words = words := by
  obtain ⟨_, magic⟩ := (isModule_iff words).mp sound
  rw [inOrder, if_neg (not_isReversed_of_magic magic)]

/-- What a shader writes out is loaded exactly if its words, put in order, are a module. -/
theorem ofBytes_bytes_eq_ok_iff (shader loaded : ShaderBinary) :
    ofBytes shader.bytes = .ok loaded ↔
      isModule (inOrder shader.words) = true ∧ ofWords (inOrder shader.words) = loaded := by
  have whole : shader.bytes.length % 4 = 0 := by
    rw [bytes, length_bytesOfWords]
    omega
  have packed : wordsOfBytes shader.bytes = shader.words := wordsOfBytes_bytesOfWords _
  rw [ofBytes, if_neg (not_not.mpr whole), packed]
  by_cases sound : isModule (inOrder shader.words) = true <;> simp [sound]

/-- A module is loaded from what it writes out, without its label. -/
theorem ofBytes_bytes_of_isSpirv {shader : ShaderBinary} (sound : shader.isSpirv = true) :
    ofBytes shader.bytes = .ok (ofWords shader.words) := by
  have ordered := inOrder_of_isModule sound
  rw [ofBytes_bytes_eq_ok_iff, ordered]
  exact ⟨sound, rfl⟩

/-- The words come back exactly if they are a module. Words in the opposite order load too,
but as other words; all else does not load. -/
theorem words_come_back_iff (shader : ShaderBinary) :
    (∃ loaded, ofBytes shader.bytes = .ok loaded ∧ loaded.words = shader.words) ↔
      shader.isSpirv = true := by
  constructor
  · rintro ⟨loaded, accepted, same⟩
    obtain ⟨sound, rfl⟩ := (ofBytes_bytes_eq_ok_iff shader loaded).mp accepted
    have ordered : inOrder shader.words = shader.words := same
    rwa [ordered] at sound
  · intro sound
    exact ⟨_, ofBytes_bytes_of_isSpirv sound, rfl⟩

/-- Bytes that load come back from the shader if they begin with the magic number, and with
every group of four turned round otherwise. -/
theorem bytes_of_loaded {stored : List UInt8} {loaded : ShaderBinary}
    (accepted : ofBytes stored = .ok loaded) :
    loaded.bytes = if stored.take 4 = magicBytes then stored else reverseGroups stored := by
  obtain ⟨proper, reversed⟩ := head?_magic_iff stored
  rw [ofBytes_eq] at accepted
  split_ifs at accepted with partialWord begins
  obtain rfl := Except.ok.inj accepted
  have written := bytesOfWords_wordsOfBytes (not_not.mp partialWord)
  by_cases magic : stored.take 4 = magicBytes
  · have ordered : inOrder (wordsOfBytes stored) = wordsOfBytes stored := by
      rw [inOrder, if_neg (not_isReversed_of_magic (proper.mpr magic))]
    rw [if_pos magic, ordered]
    exact written
  · have turned : inOrder (wordsOfBytes stored) = (wordsOfBytes stored).map reverseWord := by
      rw [inOrder, if_pos (reversed.mpr (begins.2.resolve_left magic))]
    rw [if_neg magic, turned]
    exact (bytesOfWords_map_reverseWord _).trans (congrArg reverseGroups written)

/-- Writing out and loading are inverse to each other on modules. A shader in any state
writes four bytes for every word, and its words come back from them exactly if it is a
module. Bytes that load are written out again as they were if they are in the order of
writing, and with the bytes of every word turned round if they are not. -/
theorem words_and_bytes_round_trip (shader : ShaderBinary) :
    shader.bytes.length = 4 * shader.words.length ∧
      ((∃ loaded, ofBytes shader.bytes = .ok loaded ∧ loaded.words = shader.words) ↔
        shader.isSpirv = true) ∧
      ∀ (stored : List UInt8) (loaded : ShaderBinary), ofBytes stored = .ok loaded →
        loaded.bytes =
          if stored.take 4 = [0x03, 0x02, 0x23, 0x07] then stored else reverseGroups stored :=
  ⟨length_bytesOfWords _, words_come_back_iff shader, fun _ _ accepted => bytes_of_loaded accepted⟩

/-- The smallest module, with a label. -/
def smallestModule : ShaderBinary where
  words := [magicNumber, 0x10000, 0, 1, 0]
  label? := some "blit"

/-- It comes back from its twenty bytes. Stored the other way round it is loaded all the same,
and written out turned round. -/
theorem smallestModule_round_trip :
    smallestModule.bytes.length = 20 ∧
      (∃ loaded, ofBytes smallestModule.bytes = .ok loaded ∧
        loaded.words = smallestModule.words) ∧
      ofBytes (reverseGroups smallestModule.bytes) = .ok (ofWords smallestModule.words) ∧
      (ofWords smallestModule.words).bytes = smallestModule.bytes := by
  have stored : ofBytes (reverseGroups smallestModule.bytes) =
      .ok (ofWords smallestModule.words) := by rfl
  obtain ⟨size, comesBack, writtenOut⟩ := words_and_bytes_round_trip smallestModule
  refine ⟨size, comesBack.mpr (by decide), stored, ?_⟩
  exact writtenOut (reverseGroups smallestModule.bytes) _ stored

/-- Words that begin with the magic number turned round are no module. They load, but as
other words. -/
example :
    let turned := ofWords [0x03022307, 0x100, 0, 0x1000000, 0]
    turned.isSpirv = false ∧
      ofBytes turned.bytes = .ok (ofWords [magicNumber, 0x10000, 0, 1, 0]) :=
  ⟨rfl, rfl⟩

end ShaderBinary

end RenderAssets
