/-!
# Why an operation is refused

Every refusal is a cause with the figures that belong to it. A cause falls into
one of four classes, and its text is the heading of the class followed by the
detail of the cause. Reading a vertex that does not exist is a class of its own:
such an operation is abandoned rather than refused, and its partial work is lost.
-/

namespace RenderAssets

/-- What a caller can branch on. -/
inductive FailureClass where
  /-- A mesh routine was given lists whose sizes do not fit together. -/
  | argument
  /-- A parameter of a shader routine has an impossible value. -/
  | parameter
  /-- Shader code is in no format that can be consumed. -/
  | shaderCode
  /-- An index names no element. -/
  | bounds
  deriving DecidableEq, Repr

namespace FailureClass

/-- What the text of a failure begins with. -/
def heading : FailureClass → String
  | argument => ""
  | parameter => "invalid parameter: "
  | shaderCode => "invalid shader code: "
  | bounds => ""

/-- The text of a failure of this class with the given detail. -/
def describe (failureClass : FailureClass) (detail : String) : String :=
  failureClass.heading ++ detail

end FailureClass

/-- The mesh routine that refused its input, as it signs its messages. -/
inductive Operation where
  | flatNormals
  | smoothNormals
  | sharedNormals
  | meshFlatNormals
  deriving DecidableEq, Repr

/-- The signature that opens a message. -/
def Operation.name : Operation → String
  | flatNormals => "generate_flat_normals_into"
  | smoothNormals => "generate_smooth_normals_into"
  | sharedNormals => "generate_flat_normals_indexed"
  | meshFlatNormals => "TriangleMesh::with_flat_normals"

/-- Why a mesh routine stopped. -/
inductive MeshError where
  /-- The positions do not form whole triangles. -/
  | positionCount (operation : Operation)
  /-- The indices do not form whole triangles. -/
  | indexCount (operation : Operation)
  /-- The output has not one entry per position. -/
  | outputSize (operation : Operation) (expected got : Nat)
  /-- Flat normals were asked of a mesh that shares its vertices. -/
  | sharedVertices
  /-- A triangle corner names a vertex beyond the last one. -/
  | missingVertex (length index : Nat)
  deriving DecidableEq, Repr

namespace MeshError

/-- Only a missing vertex abandons the operation. -/
def failureClass : MeshError → FailureClass
  | missingVertex _ _ => .bounds
  | _ => .argument

/-- A detail signed by the operation that gives it. -/
def signed (operation : Operation) (detail : String) : String :=
  operation.name ++ "(): " ++ detail

/-- The cause in words. -/
def detail : MeshError → String
  | positionCount operation => signed operation "position count not divisible by 3"
  | indexCount operation => signed operation "index count not divisible by 3"
  | outputSize operation expected got =>
    signed operation s!"bad output size, expected {expected} but got {got}"
  | sharedVertices =>
    signed .meshFlatNormals "mesh is indexed, flat normals need one vertex per triangle corner"
  | missingVertex length index =>
    s!"index out of bounds: the len is {length} but the index is {index}"

/-- The text shown to a caller. -/
def message (error : MeshError) : String := error.failureClass.describe error.detail

end MeshError

/-- Why bytes are no shader binary. -/
inductive ShaderError where
  /-- The bytes do not form whole words. -/
  | partialWord (byteCount : Nat)
  /-- The words do not begin with a SPIR-V header in either byte order. -/
  | missingHeader
  deriving DecidableEq, Repr

namespace ShaderError

/-- A length is a parameter; a missing header is a fault of the code. -/
def failureClass : ShaderError → FailureClass
  | partialWord _ => .parameter
  | missingHeader => .shaderCode

/-- The cause in words. -/
def detail : ShaderError → String
  | partialWord byteCount => s!"shader byte length {byteCount} is not a multiple of 4"
  | missingHeader => "missing SPIR-V header"

/-- The text shown to a caller. -/
def message (error : ShaderError) : String := error.failureClass.describe error.detail

end ShaderError

end RenderAssets
