import RenderAssets.Mesh.Basic

/-!
# One-line summaries of meshes

A summary names the parts of a mesh and gives their sizes, in a fixed order and
without the data. A part that may be missing is written `Some(...)` or `None`. A
label is quoted: the quote and the backslash get a backslash in front, a line
end and a tab are written by letter, and every other character stands for itself.
-/

namespace RenderAssets

namespace Summary

/-- A character as it stands between quotes. -/
def escape : Char → List Char
  | '"' => ['\\', '"']
  | '\\' => ['\\', '\\']
  | '\n' => ['\\', 'n']
  | '\t' => ['\\', 't']
  | character => [character]

/-- A text between quotes. -/
def quote (text : String) : String :=
  String.ofList ('"' :: (text.toList.flatMap escape ++ ['"']))

/-- A part that may be missing. -/
def optional : Option String → String
  | none => "None"
  | some text => "Some(" ++ text ++ ")"

/-- A truth value in words. -/
def truth : Bool → String
  | true => "true"
  | false => "false"

end Summary

/-- The mesh in one line. -/
def TriangleMesh.summary {α : Type} (mesh : TriangleMesh α) : String :=
  "TriangleMesh \x7b label: " ++ Summary.optional (mesh.label?.map Summary.quote) ++
    ", vertex_count: " ++ toString mesh.vertexCount ++
    ", has_normals: " ++ Summary.truth mesh.normals?.isSome ++
    ", index_format: " ++ Summary.optional (mesh.indexFormat?.map IndexFormat.name) ++
    ", index_count: " ++ toString mesh.indexCount ++ " \x7d"

end RenderAssets
