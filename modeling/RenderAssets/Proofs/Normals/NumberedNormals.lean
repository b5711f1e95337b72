import Mathlib.Data.List.Basic
import RenderAssets.Proofs.Normals.UnrolledCorners

/-!
# Numbered normals

Shared normals are numbered in the order in which their keys are first seen. After any
number of triangles, the keys of the stored normals are the keys met so far without
repetitions, and the number of a triangle is the place of its key among them. A key keeps
its place when others come behind it, so numbers given earlier need no revision.

Reading the numbers back gives the flat normals of the unrolled corners, bit for bit. A
number has four bytes, and so this takes that there are at most 2³² keys.
-/

namespace RenderAssets.SharedNormals

variable {α : Type} [Scalar α]

/-- The different keys among some normals, in the order in which they are first seen. -/
def firstSeen (faces : List (Vector3 α)) : List (Vector3 UInt32) :=
  (faces.map Vector3.key).eraseDups

/-- The keys that are seen are those of the normals. -/
theorem key_mem_firstSeen {faces : List (Vector3 α)} {face : Vector3 α} (listed : face ∈ faces) :
    face.key ∈ firstSeen faces :=
  List.mem_eraseDups.mpr (List.mem_map_of_mem listed)

/-- A further normal has a key seen before, or puts its own behind the others. -/
theorem firstSeen_concat (faces : List (Vector3 α)) (face : Vector3 α) :
    firstSeen (faces ++ [face]) =
      if face.key ∈ firstSeen faces then firstSeen faces else firstSeen faces ++ [face.key] := by
  have before : face.key ∈ firstSeen faces ↔ face.key ∈ faces.map Vector3.key :=
    List.mem_eraseDups
  have added : [face.key].removeAll (faces.map Vector3.key) =
      if face.key ∈ faces.map Vector3.key then [] else [face.key] := by
    by_cases seen : face.key ∈ faces.map Vector3.key <;>
      simp only [List.removeAll, List.filter_cons, List.filter_nil, List.elem_eq_mem, seen,
        decide_true, decide_false, Bool.not_true, Bool.not_false, if_true, if_false,
        Bool.false_eq_true]
  rw [if_congr before rfl rfl, firstSeen, List.map_append, List.eraseDups_append,
    List.map_singleton, added]
  split
  case isTrue => exact List.append_nil _
  case isFalse => rfl

/-- The keys seen before keep their places, and a new one has the place behind them. -/
theorem idxOf_firstSeen_concat {faces : List (Vector3 α)} {face : Vector3 α}
    {key : Vector3 UInt32} (seen : key ∈ firstSeen faces ∨ key = face.key) :
    (firstSeen (faces ++ [face])).idxOf key = (firstSeen faces).idxOf key := by
  rw [firstSeen_concat]
  split
  case isTrue => rfl
  case isFalse unseen =>
    rcases seen with before | rfl
    · exact List.idxOf_append_of_mem before
    · rw [List.idxOf_append_of_notMem unseen, List.idxOf_cons_self,
        List.idxOf_eq_length_iff.mpr unseen, Nat.add_zero]

/-- The numbers of some normals, each the place of its key. -/
def numbersOf (faces : List (Vector3 α)) : List UInt32 :=
  faces.map fun face => ((firstSeen faces).idxOf face.key).toUInt32

/-- A further normal leaves the numbers of those before it as they are. -/
theorem numbersOf_concat (faces : List (Vector3 α)) (face : Vector3 α) :
    numbersOf (faces ++ [face]) =
      numbersOf faces ++ [((firstSeen faces).idxOf face.key).toUInt32] := by
  have kept : ∀ earlier ∈ faces,
      ((firstSeen (faces ++ [face])).idxOf earlier.key).toUInt32 =
        ((firstSeen faces).idxOf earlier.key).toUInt32 := fun earlier listed => by
    rw [idxOf_firstSeen_concat (.inl (key_mem_firstSeen listed))]
  rw [numbersOf, List.map_append, List.map_congr_left kept, List.map_singleton,
    idxOf_firstSeen_concat (.inr rfl), numbersOf]

/-- The keys of the stored normals, by number. -/
def Numbering.keys (numbering : Numbering α) : List (Vector3 UInt32) :=
  numbering.normals.toList.map Vector3.key

/-- A normal is stored if its key is new, and gets the place of its key for its number. -/
theorem Numbering.insert_eq (numbering : Numbering α) (face : Vector3 α) :
    numbering.insert face =
      { normals :=
          if face.key ∈ numbering.keys then numbering.normals else numbering.normals.push face
        numbers := numbering.numbers.push (numbering.keys.idxOf face.key).toUInt32 } := by
  have lookup : numbering.normals.findIdx? (fun seen => seen.key == face.key) =
      numbering.keys.findIdx? (· == face.key) := by
    rw [keys, List.findIdx?_map, ← List.findIdx?_toArray, Array.toArray_toList]
    rfl
  rw [insert, lookup]
  by_cases seen : face.key ∈ numbering.keys
  · have found : numbering.keys.findIdx? (· == face.key) =
        some (numbering.keys.idxOf face.key) :=
      List.findIdx?_eq_some_iff_findIdx_eq.mpr ⟨List.idxOf_lt_length_iff.mpr seen, rfl⟩
    simp only [found, seen, if_true]
  · have missing : numbering.keys.findIdx? (· == face.key) = none :=
      List.findIdx?_eq_none_iff.mpr fun key stored =>
        beq_false_of_ne fun same => seen (same ▸ stored)
    have next : numbering.keys.idxOf face.key = numbering.normals.size := by
      rw [List.idxOf_eq_length_iff.mpr seen, keys, List.length_map, Array.length_toList]
    simp only [missing, seen, if_false, next]

/-- What a numbering is after some normals. -/
structure Numbering.Represents (faces : List (Vector3 α)) (numbering : Numbering α) : Prop where
  /-- A normal is stored for every key. -/
  keys : numbering.keys = firstSeen faces
  /-- The number of a normal is the place of its key. -/
  numbers : numbering.numbers.toList =
    faces.map fun face => ((firstSeen faces).idxOf face.key).toUInt32

/-- Nothing is numbered before the first normal. -/
theorem Numbering.represents_nil : Numbering.Represents ([] : List (Vector3 α)) {} :=
  ⟨rfl, rfl⟩

/-- One more normal is numbered, and those before it keep their numbers. -/
theorem Numbering.Represents.insert {faces : List (Vector3 α)} {numbering : Numbering α}
    (represents : numbering.Represents faces) (face : Vector3 α) :
    (numbering.insert face).Represents (faces ++ [face]) := by
  rw [insert_eq, represents.keys]
  constructor
  case keys =>
    rw [firstSeen_concat, Numbering.keys]
    split
    case isTrue => exact represents.keys
    case isFalse =>
      rw [Array.toList_push, List.map_append, ← Numbering.keys, represents.keys]
      rfl
  case numbers =>
    rw [Array.toList_push, represents.numbers]
    exact (numbersOf_concat faces face).symm

/-- The normals of a run are numbered one after the other. -/
theorem Numbering.Represents.run {before : List (Vector3 α)} {numbering : Numbering α}
    (represents : numbering.Represents before) (faces : List (Vector3 α)) :
    (faces.foldl Numbering.insert numbering).Represents (before ++ faces) := by
  induction faces generalizing before numbering with
  | nil => rwa [List.append_nil]
  | cons face rest inductionHypothesis =>
    rw [List.foldl_cons, List.append_cons]
    exact inductionHypothesis (represents.insert face)

/-- The flat normals of an index list, triangle by triangle. -/
def faceNormals (indices : IndexBuffer) (positions : Array (Vector3 α)) : List (Vector3 α) :=
  (Triangle.cut indices.vertices).map fun triangle =>
    FlatNormals.faceNormal (triangle.map (cornerPosition positions))

/-- There is one normal for every triangle. -/
theorem length_faceNormals (indices : IndexBuffer) (positions : Array (Vector3 α)) :
    (faceNormals indices positions).length = indices.length / 3 := by
  rw [faceNormals, List.length_map, Triangle.length_cut, IndexBuffer.length_vertices]

/-- Numbering succeeds exactly for whole triangles without a missing vertex, and then every
triangle's normal is numbered. -/
theorem ofIndices_eq_ok_iff {indices : IndexBuffer} {positions : Array (Vector3 α)}
    {shared : SharedNormals α} :
    ofIndices indices positions = .ok shared ↔ indices.length % 3 = 0 ∧
      (∀ vertex ∈ indices.vertices, vertex < positions.size) ∧
      ((faceNormals indices positions).foldl Numbering.insert {}).finish = shared := by
  rw [ofIndices_eq_overIndices, overIndices_eq_ok_iff, faceNormals, List.foldl_map]

/-- Up to 2³² keys, the number of a key is its place. -/
theorem toNat_place {faces : List (Vector3 α)} (few : (firstSeen faces).length ≤ UInt32.size)
    {key : Vector3 UInt32} (seen : key ∈ firstSeen faces) :
    ((firstSeen faces).idxOf key).toUInt32.toNat = (firstSeen faces).idxOf key := by
  have inside := List.idxOf_lt_length_iff.mpr seen
  exact UInt32.toNat_ofNat_of_lt' (Nat.lt_of_lt_of_le inside few)

namespace Numbering.Represents

variable {faces : List (Vector3 α)} {numbering : Numbering α}

/-- Every corner has the number of its triangle. -/
theorem length_indices (represents : numbering.Represents faces) :
    numbering.finish.indices.length = 3 * faces.length := by
  rw [Numbering.finish, Triangle.length_repeated, represents.numbers, List.length_map]

/-- Up to 2³² keys, a normal is stored under every number. -/
theorem number_lt (represents : numbering.Represents faces)
    (few : (firstSeen faces).length ≤ UInt32.size) {number : UInt32}
    (given : number ∈ numbering.finish.indices) :
    number.toNat < numbering.finish.normals.length := by
  rw [Numbering.finish, represents.numbers, List.mem_flatMap] at given
  obtain ⟨own, numbered, repeated⟩ := given
  obtain ⟨face, listed, rfl⟩ := List.mem_map.mp numbered
  have stored : numbering.finish.normals.length = (firstSeen faces).length := by
    rw [← represents.keys, Numbering.keys, List.length_map, Numbering.finish]
  rw [List.eq_of_mem_replicate repeated, toNat_place few (key_mem_firstSeen listed), stored]
  exact List.idxOf_lt_length_iff.mpr (key_mem_firstSeen listed)

/-- Under its number, a corner of a triangle finds a normal with the key of the triangle's. -/
theorem read_back (represents : numbering.Represents faces)
    (few : (firstSeen faces).length ≤ UInt32.size) {corner : Nat} {face : Vector3 α}
    (listed : faces[corner / 3]? = some face) :
    ∃ (number : UInt32) (normal : Vector3 α), numbering.finish.indices[corner]? = some number ∧
      numbering.finish.normals[number.toNat]? = some normal ∧ normal.key = face.key := by
  have member := List.mem_of_getElem? listed
  have stored : numbering.keys[(firstSeen faces).idxOf face.key]? = some face.key := by
    rw [represents.keys]
    exact List.getElem?_idxOf (key_mem_firstSeen member)
  rw [Numbering.keys, List.getElem?_map, Option.map_eq_some_iff] at stored
  obtain ⟨normal, here, same⟩ := stored
  refine ⟨((firstSeen faces).idxOf face.key).toUInt32, normal, ?_, ?_, same⟩
  · rw [Numbering.finish, Triangle.getElem?_repeated, represents.numbers, List.getElem?_map,
      listed, Option.map_some]
  · rwa [Numbering.finish, toNat_place few (key_mem_firstSeen member)]

end Numbering.Represents

/-- Shared normals are the flat normals without loss. Every corner has a number, every number
stands for a stored normal, and that is bit for bit the flat normal of the corner, which is
the normal of the triangle at a third of the corner's place. -/
theorem shared_normals_read_back (indices : IndexBuffer) (positions : Array (Vector3 α))
    (whole : indices.length % 3 = 0)
    (inRange : ∀ vertex ∈ indices.vertices, vertex < positions.size)
    (few : (firstSeen (faceNormals indices positions)).length ≤ UInt32.size) :
    ∃ (shared : SharedNormals α) (flat : Array (Vector3 α)),
      ofIndices indices positions = .ok shared ∧
      FlatNormals.ofPositions (indices.unroll positions) = .ok flat ∧
      shared.indices.length = indices.length ∧
      (∀ number ∈ shared.indices, number.toNat < shared.normals.length) ∧
      ∀ corner < indices.length,
        (∃ (number : UInt32) (normal flatNormal : Vector3 α),
          shared.indices[corner]? = some number ∧ shared.normals[number.toNat]? = some normal ∧
            flat[corner]? = some flatNormal ∧ normal.key = flatNormal.key) ∧
        ∃ first second third : Vector3 α,
          (indices.unroll positions)[3 * (corner / 3)]? = some first ∧
            (indices.unroll positions)[3 * (corner / 3) + 1]? = some second ∧
            (indices.unroll positions)[3 * (corner / 3) + 2]? = some third ∧
            flat[corner]? = some (Vector3.triangleNormal first second third).normalize := by
  obtain ⟨flat, unrolled⟩ := FlatNormals.exists_of_unrolled whole inRange
  have represents := Numbering.represents_nil.run (faceNormals indices positions)
  rw [List.nil_append] at represents
  have counted := length_faceNormals indices positions
  refine ⟨_, flat, ofIndices_eq_ok_iff.mpr ⟨whole, inRange, rfl⟩, unrolled, ?_,
    fun number => represents.number_lt few, fun corner inside => ⟨?_, ?_⟩⟩
  · rw [represents.length_indices, counted]
    omega
  · have formed : corner / 3 < (faceNormals indices positions).length := by omega
    have there := List.getElem?_eq_getElem formed
    obtain ⟨number, normal, numbered, stored, same⟩ := represents.read_back few there
    refine ⟨number, normal, _, numbered, stored, ?_, same⟩
    rwa [FlatNormals.getElem?_of_unrolled inRange unrolled, ← List.getElem?_map]
  · refine FlatNormals.normal_at_corner unrolled ?_
    rwa [IndexBuffer.size_unroll inRange]

/-- The corners of a square, and a point above one of them. -/
def walledSquarePositions : Array (Vector3 Float32) :=
  #[⟨0, 0, 0⟩, ⟨1, 0, 0⟩, ⟨1, 1, 0⟩, ⟨0, 1, 0⟩, ⟨1, 0, 1⟩]

/-- Two triangles fill the square, and a third stands on one of its edges. -/
def walledSquare : IndexBuffer := .uint16 [0, 1, 2, 0, 2, 3, 1, 4, 2]

/-- There are two normals for its three triangles, and every corner can read back its own. -/
theorem walledSquare_normals_read_back :
    (firstSeen (faceNormals walledSquare walledSquarePositions)).length = 2 ∧
      ∃ shared flat, ofIndices walledSquare walledSquarePositions = .ok shared ∧
        FlatNormals.ofPositions (walledSquare.unroll walledSquarePositions) = .ok flat ∧
        (∀ number ∈ shared.indices, number.toNat < shared.normals.length) ∧
        ∀ corner < 9, ∃ (number : UInt32) (normal flatNormal : Vector3 Float32),
          shared.indices[corner]? = some number ∧ shared.normals[number.toNat]? = some normal ∧
            flat[corner]? = some flatNormal ∧ normal.key = flatNormal.key := by
  have two : (firstSeen (faceNormals walledSquare walledSquarePositions)).length = 2 := by
    decide +kernel
  have few : (firstSeen (faceNormals walledSquare walledSquarePositions)).length ≤
      UInt32.size := by
    rw [two]
    decide
  obtain ⟨shared, flat, accepted, unrolled, _, inside, corners⟩ :=
    shared_normals_read_back walledSquare walledSquarePositions (by decide) (by decide) few
  exact ⟨two, shared, flat, accepted, unrolled, inside,
    fun corner listed => (corners corner listed).1⟩

/-- A square has one normal for both its triangles. -/
example :
    let square : Array (Vector3 Float32) := #[⟨0, 0, 0⟩, ⟨1, 0, 0⟩, ⟨1, 1, 0⟩, ⟨0, 1, 0⟩]
    (ofIndices (.uint16 [0, 1, 2, 0, 2, 3]) square).toOption.map
      (fun shared => (shared.indices, shared.normals.length)) =
        some ([0, 0, 0, 0, 0, 0], 1) := by
  decide +kernel

end RenderAssets.SharedNormals
