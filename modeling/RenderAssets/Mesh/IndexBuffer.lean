/-!
# Index buffers

A mesh stores the vertex of each triangle corner as an index of one, two or four
bytes. The width decides how many vertices can be named and is part of the
buffer: two buffers of different widths are never equal. Everything else about
an index is its value, which all widths share through `vertices`.
-/

namespace RenderAssets

/-- The width of the indices in a buffer. -/
inductive IndexFormat where
  | uint8
  | uint16
  | uint32
  deriving DecidableEq, Repr

namespace IndexFormat

/-- Two bytes per index unless something else is asked for. -/
instance : Inhabited IndexFormat := ⟨uint16⟩

/-- The name of the format. -/
def name : IndexFormat → String
  | uint8 => "Uint8"
  | uint16 => "Uint16"
  | uint32 => "Uint32"

end IndexFormat

/-- The indices of a mesh, in one width. -/
inductive IndexBuffer where
  | uint8 (indices : List UInt8)
  | uint16 (indices : List UInt16)
  | uint32 (indices : List UInt32)
  deriving DecidableEq, Repr

namespace IndexBuffer

/-- The width of this buffer. -/
def format : IndexBuffer → IndexFormat
  | uint8 _ => .uint8
  | uint16 _ => .uint16
  | uint32 _ => .uint32

/-- The number of indices. -/
def length : IndexBuffer → Nat
  | uint8 indices => indices.length
  | uint16 indices => indices.length
  | uint32 indices => indices.length

/-- Whether there are no indices. -/
def isEmpty (buffer : IndexBuffer) : Bool := buffer.length == 0

/-- Every index in the widest format. -/
def widen : IndexBuffer → List UInt32
  | uint8 indices => indices.map UInt8.toUInt32
  | uint16 indices => indices.map UInt16.toUInt32
  | uint32 indices => indices

/-- The vertex named by every index, whatever the width. -/
def vertices (buffer : IndexBuffer) : List Nat := buffer.widen.map UInt32.toNat

/-- Widening keeps one entry per index. -/
theorem length_widen (buffer : IndexBuffer) : buffer.widen.length = buffer.length := by
  cases buffer <;> simp [widen, length]

/-- There is one vertex per index. -/
theorem length_vertices (buffer : IndexBuffer) : buffer.vertices.length = buffer.length := by
  simp [vertices, length_widen]

end IndexBuffer

end RenderAssets
