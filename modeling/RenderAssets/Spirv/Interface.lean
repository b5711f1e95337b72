import RenderAssets.Spirv.Cursor
import RenderAssets.Spirv.EntryPoint

/-!
# The interfaces of the vertex and the fragment stage

In a sound module the entry points come first, then the decorations, then the
variables, so one cursor reads all three in turn: each kind is searched for until
there is no more of it, and the next kind from where the last one was found.

Every interface id has a slot. A decoration or a variable settles the first slot
of its id in either interface; a later one overrides an earlier one. A slot keeps
where the value of its location stands in the module, not the value itself, since
that is the word to be changed. The highest location is taken over all location
decorations, whether or not their target belongs to an interface.

The scan gives up on an entry point or a variable that is too short, and on a
module in which one of the two stages has no interface. A short decoration is
sound: it says something else than a location.
-/

namespace RenderAssets.Spirv

/-- The number of the decoration that gives a location. -/
def locationDecoration : UInt32 := 30

/-- The number of the storage class of stage inputs. -/
def inputClass : UInt32 := 1

/-- The number of the storage class of stage outputs. -/
def outputClass : UInt32 := 3

/-- An interface variable, with what has been learnt of it. -/
structure Slot where
  /-- The id of the variable. -/
  id : UInt32
  /-- Where the value of its location stands in the module. -/
  location? : Option Nat := none
  /-- The number of its storage class. -/
  storageClass? : Option UInt32 := none
  deriving DecidableEq, Repr

namespace Slot

/-- The slots of an interface of which nothing is known yet. -/
def unsettled (ids : List UInt32) : List Slot := ids.map fun id => { id }

/-- Change the first slot of an id. Without one, nothing changes. -/
def settle (id : UInt32) (change : Slot → Slot) : List Slot → List Slot
  | [] => []
  | slot :: rest => if slot.id = id then change slot :: rest else slot :: settle id change rest

/-- Where the locations of the variables in a storage class stand, in the order of
the interface. Variables without a location are passed over. -/
def located (storageClass : UInt32) (slots : List Slot) : List Nat :=
  slots.filterMap fun slot =>
    if slot.storageClass? = some storageClass then slot.location? else none

end Slot

/-- A decoration that gives its target a location. -/
structure LocationDecoration where
  /-- The id that is decorated. -/
  target : UInt32
  /-- The location it gets. -/
  location : UInt32
  /-- Where that location stands in the module. -/
  offset : Nat
  deriving DecidableEq, Repr

/-- Reads the location decoration at a place in a module, if it is one. -/
def LocationDecoration.read? (words : List UInt32) (instruction : Instruction) :
    Option LocationDecoration :=
  match instruction.words? words with
  | some (_ :: target :: decoration :: location :: _) =>
    if decoration = locationDecoration then
      some { target, location, offset := instruction.offset + 3 }
    else none
  | _ => none

/-- A variable and its storage class. -/
structure VariableDeclaration where
  id : UInt32
  storageClass : UInt32
  deriving DecidableEq, Repr

/-- Reads the variable declared at a place in a module, unless it is too short. -/
def VariableDeclaration.read? (words : List UInt32) (instruction : Instruction) :
    Option VariableDeclaration :=
  match instruction.words? words with
  | some (_ :: _ :: id :: storageClass :: _) => some { id, storageClass }
  | _ => none

/-- The interfaces of the two stages, and the highest location in the module. -/
structure StageInterfaces where
  vertex : List Slot
  fragment : List Slot
  highestLocation : UInt32 := 0
  deriving DecidableEq, Repr

namespace StageInterfaces

/-- Change the first slot of an id in each interface. -/
def settle (interfaces : StageInterfaces) (id : UInt32) (change : Slot → Slot) :
    StageInterfaces :=
  { interfaces with
    vertex := Slot.settle id change interfaces.vertex
    fragment := Slot.settle id change interfaces.fragment }

/-- Note a location, for its target and for the highest location. -/
def noteLocation (interfaces : StageInterfaces) (decoration : LocationDecoration) :
    StageInterfaces :=
  { interfaces.settle decoration.target fun slot =>
      { slot with location? := some decoration.offset } with
    highestLocation := max interfaces.highestLocation decoration.location }

/-- Note the storage class of a variable. -/
def noteVariable (interfaces : StageInterfaces) (declaration : VariableDeclaration) :
    StageInterfaces :=
  interfaces.settle declaration.id fun slot =>
    { slot with storageClass? := some declaration.storageClass }

/-- The interfaces of a module, if both stages have one. -/
def scan? (words : List UInt32) : Option StageInterfaces := do
  let (entryPoints, afterEntryPoints) := (Cursor.start words).findAll Opcode.entryPoint
  let entryPoints ← entryPoints.mapM (EntryPoint.read? words)
  let vertexIds ← EntryPoint.interface? .vertex entryPoints
  let fragmentIds ← EntryPoint.interface? .fragment entryPoints
  let (decorations, afterDecorations) := afterEntryPoints.findAll Opcode.decorate
  let (declared, _) := afterDecorations.findAll Opcode.declareVariable
  let declarations ← declared.mapM (VariableDeclaration.read? words)
  let empty : StageInterfaces :=
    { vertex := Slot.unsettled vertexIds, fragment := Slot.unsettled fragmentIds }
  let withLocations :=
    (decorations.filterMap (LocationDecoration.read? words)).foldl noteLocation empty
  return declarations.foldl noteVariable withLocations

end StageInterfaces

end RenderAssets.Spirv
