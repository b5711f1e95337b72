import RenderAssets.Normals.Smooth

/-!
# Shared flat normals

Each triangle has one flat normal. Instead of repeating it, every distinct normal
is stored once and the corners refer to it by number. Numbers are given in the
order in which normals are first seen, starting at zero. Normals are told apart
by the bit patterns of their components: signed zeros differ, and so do NaNs of
different patterns. Over scalars with only one NaN, that one equals itself.
-/

namespace RenderAssets

/-- Normals by number, and the number that each corner refers to. -/
structure SharedNormals (α : Type) where
  indices : List UInt32
  normals : List (Vector3 α)

namespace SharedNormals

variable {α : Type} [Scalar α]

/-- The distinct normals met so far in the order of their numbers, and the
number of each triangle met so far. -/
structure Numbering (α : Type) where
  normals : Array (Vector3 α) := #[]
  numbers : Array UInt32 := #[]

/-- The number of a normal: its place among those seen, or else the next free one. -/
def Numbering.insert (numbering : Numbering α) (normal : Vector3 α) : Numbering α :=
  match numbering.normals.findIdx? fun seen => seen.key == normal.key with
  | some number => { numbering with numbers := numbering.numbers.push number.toUInt32 }
  | none =>
    { normals := numbering.normals.push normal
      numbers := numbering.numbers.push numbering.normals.size.toUInt32 }

/-- Number the normals of the triangles one after the other, up to the first
missing vertex. -/
def numberAll (positions : Array (Vector3 α)) :
    List (Triangle Nat) → Numbering α → Except MeshError (Numbering α)
  | [], numbering => .ok numbering
  | triangle :: rest, numbering =>
    match trianglePositions positions triangle with
    | .error failure => .error failure
    | .ok corners =>
      numberAll positions rest (numbering.insert (FlatNormals.faceNormal corners))

/-- Each triangle's number stands for its three corners. -/
def Numbering.finish (numbering : Numbering α) : SharedNormals α where
  indices := numbering.numbers.toList.flatMap (List.replicate 3)
  normals := numbering.normals.toList

/-- The shared normals of an indexed triangle list. -/
def ofIndices (indices : IndexBuffer) (positions : Array (Vector3 α)) :
    Except MeshError (SharedNormals α) :=
  if indices.length % 3 ≠ 0 then
    .error (.indexCount .sharedNormals)
  else
    match numberAll positions (Triangle.cut indices.vertices) {} with
    | .error failure => .error failure
    | .ok numbering => .ok numbering.finish

end SharedNormals

end RenderAssets
