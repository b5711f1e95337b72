import RenderAssets.Failure
import RenderAssets.Spirv.ByteOrder
import RenderAssets.Spirv.Relocation
import RenderAssets.Shader.Workarounds

/-!
# Shader binaries

A shader is held as words, with an optional label. Words are taken as they are,
so code of any format can pass through. Bytes are taken only if they are whole
words of a SPIR-V module; a module in the opposite byte order is turned round on
the way in, and bytes written out always have the least significant one first.

Workarounds change a shader only if one is switched on and the shader is SPIR-V.
-/

namespace RenderAssets

/-- A compiled shader. -/
structure ShaderBinary where
  words : List UInt32 := []
  label? : Option String := none
  deriving DecidableEq, Repr

namespace ShaderBinary

/-- The shader of given words, without a label. -/
def ofWords (words : List UInt32) : ShaderBinary := { words }

/-- Whether a module's words have their bytes in the opposite order. -/
def IsReversed (words : List UInt32) : Prop :=
  words.head? = some (Spirv.reverseWord Spirv.magicNumber)

instance (words : List UInt32) : Decidable (IsReversed words) :=
  inferInstanceAs (Decidable (_ = _))

/-- The words of a module in their proper byte order. -/
def inOrder (words : List UInt32) : List UInt32 :=
  if IsReversed words then words.map Spirv.reverseWord else words

/-- The shader stored in bytes, in either byte order. -/
def ofBytes (bytes : List UInt8) : Except ShaderError ShaderBinary :=
  if bytes.length % 4 ≠ 0 then
    .error (.partialWord bytes.length)
  else
    let words := inOrder (Spirv.wordsOfBytes bytes)
    if Spirv.isModule words then .ok (ofWords words) else .error .missingHeader

/-- Replace the label. -/
def withLabel (shader : ShaderBinary) (label : String) : ShaderBinary :=
  { shader with label? := some label }

/-- The words as bytes, the least significant byte of each first. -/
def bytes (shader : ShaderBinary) : List UInt8 := Spirv.bytesOfWords shader.words

/-- Whether the words begin with a module header. -/
def isSpirv (shader : ShaderBinary) : Bool := Spirv.isModule shader.words

/-- Whether some workaround was carried out, and the shader after it. -/
def applyWorkarounds (shader : ShaderBinary) (workarounds : Workarounds) : Bool × ShaderBinary :=
  if workarounds.isEmpty || !shader.isSpirv then
    (false, shader)
  else if workarounds.separateOutputs then
    let separation := Spirv.separateOutputs shader.words
    (separation.applied, { shader with words := separation.words })
  else
    (false, shader)

end ShaderBinary

end RenderAssets
