import RenderAssets.Spirv.Interface

/-!
# Moving vertex outputs away from fragment outputs

Some drivers match the outputs of a vertex stage with those of the fragment stage
of the same module, and go wrong when two of them share a location. The remedy
gives every such vertex output a fresh location, one past the highest seen so
far, and moves the fragment input that read the old location along with it.

Outputs are taken in the order of the vertex interface, and each is compared with
the locations as they stand by then. At most one fragment input moves with an
output. Locations are words, so the one after the largest word is zero. Only the
words that hold locations of interface variables are ever written.
-/

namespace RenderAssets.Spirv

/-- A module while its outputs are being moved, and the highest location so far. -/
structure Relocation where
  words : List UInt32
  highestLocation : UInt32
  deriving DecidableEq, Repr

namespace Relocation

/-- Whether the word at a place holds a location. -/
def holds (words : List UInt32) (location : UInt32) (offset : Nat) : Bool :=
  words[offset]? == some location

/-- Move the first of some places that holds a location to another one. -/
def moveFirst (words : List UInt32) (offsets : List Nat) (location fresh : UInt32) :
    List UInt32 :=
  match offsets.find? (holds words location) with
  | some offset => words.set offset fresh
  | none => words

/-- Give one vertex output a fresh location if it shares its own with a fragment
output, and move the fragment input that reads it. -/
def moveOutput (fragmentOutputs fragmentInputs : List Nat) (relocation : Relocation)
    (vertexOutput : Nat) : Relocation :=
  match relocation.words[vertexOutput]? with
  | none => relocation
  | some location =>
    if fragmentOutputs.any (holds relocation.words location) then
      let fresh := relocation.highestLocation + 1
      { words := (moveFirst relocation.words fragmentInputs location fresh).set vertexOutput fresh
        highestLocation := fresh }
    else
      relocation

/-- Move the vertex outputs of a module one after the other. -/
def ofInterfaces (interfaces : StageInterfaces) (words : List UInt32) : Relocation :=
  (Slot.located outputClass interfaces.vertex).foldl
    (moveOutput (Slot.located outputClass interfaces.fragment)
      (Slot.located inputClass interfaces.fragment))
    { words, highestLocation := interfaces.highestLocation }

end Relocation

/-- A module after an attempt to separate the outputs of its stages, and whether
there were two interfaces to separate. -/
structure Separation where
  applied : Bool
  words : List UInt32
  deriving DecidableEq, Repr

/-- Separate the vertex outputs from the fragment outputs. A module without both
interfaces is returned as it is. -/
def separateOutputs (words : List UInt32) : Separation :=
  match StageInterfaces.scan? words with
  | none => { applied := false, words }
  | some interfaces => { applied := true, words := (Relocation.ofInterfaces interfaces words).words }

end RenderAssets.Spirv
