/-!
# SPIR-V modules as words

A module is a list of 32-bit words: a header of five words that begins with the
magic number, then instructions. The first word of an instruction holds its
opcode in the low half and its word count, itself included, in the high half.

An instruction is known by its place. Its words are read from a module, which
need not be the one it was found in; a place beyond the end has no words.
-/

namespace RenderAssets.Spirv

/-- The first word of every module. -/
def magicNumber : UInt32 := 0x07230203

/-- The number of words before the first instruction. -/
def headerWordCount : Nat := 5

/-- Whether words begin with a module header. Only the magic number and the
presence of the other header words are looked at. -/
def isModule (words : List UInt32) : Bool :=
  decide (headerWordCount ≤ words.length) && words.head? == some magicNumber

/-- The word count that the first word of an instruction declares. -/
def declaredCount (first : UInt32) : Nat := (first >>> 16).toNat

/-- The opcode that the first word of an instruction declares. -/
def declaredOpcode (first : UInt32) : UInt16 := (first &&& 0xffff).toUInt16

/-- The first word of an instruction. The count is cut to sixteen bits. -/
def firstWord (opcode : UInt16) (count : Nat) : UInt32 :=
  (count.toUInt32 <<< 16) ||| opcode.toUInt32

/-- An instruction in words: its opcode and length, then its operands. -/
def encodeInstruction (opcode : UInt16) (operands : List UInt32) : List UInt32 :=
  firstWord opcode (operands.length + 1) :: operands

/-- A first word is made up of the count and the opcode that it declares. -/
theorem toNat_eq_declared (first : UInt32) :
    first.toNat = declaredCount first * 0x10000 + (declaredOpcode first).toNat := by
  have low : (declaredOpcode first).toNat = first.toNat % 0x10000 := by
    have masked : first.toNat &&& 0xffff = first.toNat % 0x10000 :=
      Nat.and_two_pow_sub_one_eq_mod first.toNat 16
    simp only [declaredOpcode, UInt32.toNat_toUInt16, UInt32.toNat_and]
    change (first.toNat &&& 0xffff) % 0x10000 = _
    rw [masked, Nat.mod_mod]
  have high : declaredCount first = first.toNat / 0x10000 := by
    simp [declaredCount, Nat.shiftRight_eq_div_pow]
  rw [low, high]
  omega

/-- A first word is, as a number, its count in the high half and its opcode in the low one. -/
theorem toNat_firstWord (opcode : UInt16) {count : Nat} (fits : count < 0x10000) :
    (firstWord opcode count).toNat = count * 0x10000 + opcode.toNat := by
  have bound := opcode.toNat_lt
  have whole : count.toUInt32.toNat = count := UInt32.toNat_ofNat_of_lt' (Nat.lt_trans fits (by decide))
  have room : count * 0x10000 % 0x100000000 = count * 0x10000 := Nat.mod_eq_of_lt (by omega)
  simp only [firstWord, UInt32.toNat_or, UInt32.toNat_shiftLeft, whole, UInt16.toNat_toUInt32]
  change (count <<< 16) % 0x100000000 ||| opcode.toNat = _
  rw [Nat.shiftLeft_eq, room, Nat.mul_comm, Nat.two_pow_add_eq_or_of_lt bound]

/-- A first word declares the count and the opcode that it was made from. -/
theorem declared_firstWord (opcode : UInt16) {count : Nat} (fits : count < 0x10000) :
    declaredCount (firstWord opcode count) = count ∧
      declaredOpcode (firstWord opcode count) = opcode := by
  have split := toNat_eq_declared (firstWord opcode count)
  have bound := opcode.toNat_lt
  have low := (declaredOpcode (firstWord opcode count)).toNat_lt
  rw [toNat_firstWord opcode fits] at split
  constructor
  · omega
  · apply UInt16.toNat_inj.mp
    omega

namespace Opcode

/-- Names an entry point of a stage and the variables of its interface. -/
def entryPoint : UInt32 := 15

/-- Declares a variable and its storage class. -/
def declareVariable : UInt32 := 59

/-- Attaches a decoration to the result of another instruction. -/
def decorate : UInt32 := 71

end Opcode

/-- The place of an instruction in a module. -/
structure Instruction where
  /-- The opcode. -/
  opcode : UInt16
  /-- Where the first word stands, counted from the start of the module. -/
  offset : Nat
  /-- The number of words, the first one included. -/
  wordCount : Nat
  deriving DecidableEq, Repr

namespace Instruction

/-- Whether an instruction has an opcode. -/
def hasOpcode (instruction : Instruction) (opcode : UInt32) : Bool :=
  instruction.opcode.toUInt32 == opcode

/-- The place just past the last word. -/
def stop (instruction : Instruction) : Nat := instruction.offset + instruction.wordCount

/-- The words at the place of an instruction, unless a module ends before. -/
def words? (instruction : Instruction) (words : List UInt32) : Option (List UInt32) :=
  if instruction.stop ≤ words.length then
    some ((words.drop instruction.offset).take instruction.wordCount)
  else
    none

/-- Words that are present are as many as the instruction claims. -/
theorem length_words? (instruction : Instruction) (words found : List UInt32)
    (present : instruction.words? words = some found) : found.length = instruction.wordCount := by
  simp only [words?] at present
  split at present
  next inside =>
    obtain rfl := Option.some.inj present
    simp only [stop] at inside
    simp only [List.length_take, List.length_drop]
    omega
  next => simp at present

end Instruction

end RenderAssets.Spirv
