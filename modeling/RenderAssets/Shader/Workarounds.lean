/-!
# Driver workarounds

A workaround is switched on for drivers that need it. Drivers are recognised by a
name they report, in which upper and lower case of the Latin letters are one.
-/

namespace RenderAssets

/-- The workarounds to apply to a shader. None is on by itself. -/
structure Workarounds where
  /-- Separate vertex outputs from fragment outputs that share their location. -/
  separateOutputs : Bool := false
  deriving DecidableEq, Repr

namespace Workarounds

/-- No workaround. -/
def none : Workarounds := {}

instance : Inhabited Workarounds := ⟨none⟩

/-- Every workaround there is. -/
def all : Workarounds := { separateOutputs := true }

/-- Switch the separation of outputs on or off. -/
def withSeparateOutputs (workarounds : Workarounds) (enabled : Bool) : Workarounds :=
  { workarounds with separateOutputs := enabled }

/-- Whether nothing is switched on. -/
def isEmpty (workarounds : Workarounds) : Bool := !workarounds.separateOutputs

/-- Whether a text occurs in another one. -/
def occursIn (part : List Char) : List Char → Bool
  | [] => part.isEmpty
  | character :: rest => part.isPrefixOf (character :: rest) || occursIn part rest

/-- The part of a name by which a driver that confuses outputs is known. -/
def confusingDriver : String := "swiftshader"

/-- The workarounds that a driver of some name needs. -/
def forDriver (name : String) : Workarounds :=
  none.withSeparateOutputs (occursIn confusingDriver.toList (name.toList.map Char.toLower))

end Workarounds

end RenderAssets
