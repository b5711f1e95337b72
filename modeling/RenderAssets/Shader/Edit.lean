import RenderAssets.Shader.Binary

/-!
# Handling a shader step by step

A shader goes through a run of edits. Two of them replace it; bytes that are no
shader are refused, and then the one at hand stays what it was.
-/

namespace RenderAssets

/-- One step in handling a shader. -/
inductive ShaderEdit where
  /-- Take up other words. -/
  | words (words : List UInt32)
  /-- Take up the words stored in bytes. -/
  | bytes (bytes : List UInt8)
  /-- Set the label. -/
  | label (label : String)
  /-- Apply workarounds. -/
  | apply (workarounds : Workarounds)
  deriving DecidableEq, Repr

namespace ShaderBinary

/-- The shader that an edit asks for, or why there is none. -/
def edited (shader : ShaderBinary) : ShaderEdit → Except ShaderError ShaderBinary
  | .words words => .ok (ofWords words)
  | .bytes bytes => ofBytes bytes
  | .label label => .ok (shader.withLabel label)
  | .apply workarounds => .ok (shader.applyWorkarounds workarounds).2

/-- The shader after an edit. -/
def edit (shader : ShaderBinary) (edit : ShaderEdit) : ShaderBinary :=
  match shader.edited edit with
  | .ok changed => changed
  | .error _ => shader

/-- The shader after a run of edits. -/
def editAll (shader : ShaderBinary) (edits : List ShaderEdit) : ShaderBinary :=
  edits.foldl edit shader

end ShaderBinary

end RenderAssets
