import RenderAssets.Spirv.Instruction

/-!
# Entry points and their interfaces

An entry point names the stage it belongs to, then its function, then itself by a
literal text; the ids of its interface variables follow the text. A literal ends
in the first word whose last byte is zero, so the interface is found without
decoding the text. A text that never ends leaves no interface.
-/

namespace RenderAssets.Spirv

/-- The stages whose entry points are matched with each other. -/
inductive Stage where
  | vertex
  | fragment
  deriving DecidableEq, Repr

/-- The number by which an entry point names its stage. -/
def Stage.executionModel : Stage → UInt32
  | vertex => 0
  | fragment => 4

/-- Whether a word continues a literal text. The last byte of a word is its
highest one, and only the end of a text puts a zero there. -/
def continuesText (word : UInt32) : Bool := word >>> 24 != 0

/-- The interface ids in the words of an entry point. -/
def interfaceIds (entryPoint : List UInt32) : List UInt32 :=
  ((entryPoint.drop 3).dropWhile continuesText).drop 1

/-- What an entry point says about the linking of stages. -/
structure EntryPoint where
  /-- The number of the stage. -/
  executionModel : UInt32
  /-- The ids of the interface variables, in order. -/
  interface : List UInt32
  deriving DecidableEq, Repr

namespace EntryPoint

/-- Reads the words of an entry point, which must reach as far as its text. -/
def ofWords? (words : List UInt32) : Option EntryPoint :=
  match words with
  | _ :: executionModel :: _ :: _ :: _ =>
    some { executionModel, interface := interfaceIds words }
  | _ => none

/-- Reads the entry point at a place in a module. -/
def read? (words : List UInt32) (instruction : Instruction) : Option EntryPoint :=
  match instruction.words? words with
  | some entryPoint => ofWords? entryPoint
  | none => none

/-- The interface of the first entry point of a stage. An entry point without
interface variables has none. -/
def interface? (stage : Stage) (entryPoints : List EntryPoint) : Option (List UInt32) :=
  match entryPoints.find? fun entryPoint => entryPoint.executionModel == stage.executionModel with
  | some entryPoint => if entryPoint.interface.isEmpty then none else some entryPoint.interface
  | none => none

end EntryPoint

end RenderAssets.Spirv
