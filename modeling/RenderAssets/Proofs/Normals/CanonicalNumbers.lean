import Mathlib.Data.Finset.Card
import RenderAssets.FloatWord
import RenderAssets.Proofs.Normals.NumberedNormals
import RenderAssets.Proofs.Scalar.BitPatterns

/-!
# The numbers of shared normals are canonical

Every different normal is stored once, under a number that some corner has. Read from left
to right, the numbers of the corners introduce themselves in order: a number that has not
occurred before is how many different ones have. So the numbers say which triangles have the
same normal, and nothing else.

The order is kept triangle by triangle. A normal seen before repeats a number, and a new one
takes the count of those seen so far for its number. Each triangle then repeats its number
for its three corners, which introduces nothing.

Two normals are the same if they have the same bits. If NaNs are to count as one value, then
the numbers are not canonical: NaNs of different patterns are stored apart.
-/

namespace RenderAssets.SharedNormals

section Order

/-- Numbers in the order of their first occurrence: one that has not occurred before is how
many different ones have. -/
def FirstSeenOrder (numbers : List UInt32) : Prop :=
  ∀ before number after, numbers = before ++ number :: after → number ∉ before →
    number.toNat = before.toFinset.card

variable {numbers : List UInt32} {number : UInt32}

/-- Nothing is in order. -/
theorem firstSeenOrder_nil : FirstSeenOrder [] := by
  intro before number after split
  exact absurd split.symm (List.append_ne_nil_of_right_ne_nil _ (List.cons_ne_nil _ _))

/-- The order goes on with a number that has occurred, or with the count of those that have. -/
theorem firstSeenOrder_concat_iff :
    FirstSeenOrder (numbers ++ [number]) ↔
      FirstSeenOrder numbers ∧ (number ∉ numbers → number.toNat = numbers.toFinset.card) := by
  constructor
  · intro order
    refine ⟨?_, order numbers number [] rfl⟩
    rintro before earlier after rfl
    exact order before earlier (after ++ [number]) (by simp)
  · rintro ⟨order, last⟩ before earlier after split
    -- The number is the last one, or one of those before it.
    rcases List.eq_nil_or_concat after with rfl | ⟨middle, final, rfl⟩
    · obtain ⟨rfl, same⟩ := List.append_inj' split rfl
      obtain rfl := List.singleton_inj.mp same
      exact last
    · rw [List.concat_eq_append, ← List.cons_append, ← List.append_assoc] at split
      exact order before earlier middle (List.append_inj' split rfl).1

/-- Repeating every number at once introduces no other. -/
theorem mem_repeated : number ∈ numbers.flatMap (List.replicate 3) ↔ number ∈ numbers := by
  simp [List.mem_flatMap]

/-- Numbers keep their order when each is repeated at once. Induction from the right: the
first of three repetitions is in order as the number itself was, and the other two have
occurred. -/
theorem FirstSeenOrder.repeated (order : FirstSeenOrder numbers) :
    FirstSeenOrder (numbers.flatMap (List.replicate 3)) := by
  induction numbers using List.reverseRecOn with
  | nil => exact firstSeenOrder_nil
  | append_singleton rest number inductionHypothesis =>
    obtain ⟨orderBefore, last⟩ := firstSeenOrder_concat_iff.mp order
    have split : (rest ++ [number]).flatMap (List.replicate 3) =
        rest.flatMap (List.replicate 3) ++ [number] ++ [number] ++ [number] := by
      simp [List.replicate]
    have counted : (rest.flatMap (List.replicate 3)).toFinset = rest.toFinset := by
      ext other
      rw [List.mem_toFinset, List.mem_toFinset, mem_repeated]
    rw [split, firstSeenOrder_concat_iff, firstSeenOrder_concat_iff, firstSeenOrder_concat_iff,
      counted, mem_repeated]
    exact ⟨⟨⟨inductionHypothesis orderBefore, last⟩, by simp⟩, by simp⟩

end Order

variable {α : Type} [Scalar α] {faces : List (Vector3 α)}

/-- No key is listed twice among those seen. -/
theorem nodup_firstSeen (faces : List (Vector3 α)) : (firstSeen faces).Nodup := by
  induction faces using List.reverseRecOn with
  | nil => exact List.nodup_nil
  | append_singleton rest face inductionHypothesis =>
    rw [firstSeen_concat]
    split
    case isTrue => exact inductionHypothesis
    case isFalse unseen =>
      rw [← List.concat_eq_append]
      exact inductionHypothesis.concat unseen

/-- A further normal leaves no fewer keys. -/
theorem length_firstSeen_le (faces : List (Vector3 α)) (face : Vector3 α) :
    (firstSeen faces).length ≤ (firstSeen (faces ++ [face])).length := by
  rw [firstSeen_concat]
  split
  case isTrue => exact Nat.le_refl _
  case isFalse => simp

section Few

variable (few : (firstSeen faces).length ≤ UInt32.size)
include few

/-- Up to 2³² keys, the places of different keys are different numbers. -/
theorem place_inj {key other : Vector3 UInt32} (seen : key ∈ firstSeen faces)
    (otherSeen : other ∈ firstSeen faces) :
    ((firstSeen faces).idxOf key).toUInt32 = ((firstSeen faces).idxOf other).toUInt32 ↔
      key = other := by
  rw [← UInt32.toNat_inj, toNat_place few seen, toNat_place few otherSeen, List.idxOf_inj seen]

/-- There are as many numbers as keys. -/
theorem card_numbersOf : (numbersOf faces).toFinset.card = (firstSeen faces).length := by
  have members : (numbersOf faces).toFinset =
      ((firstSeen faces).map fun key => ((firstSeen faces).idxOf key).toUInt32).toFinset := by
    ext number
    simp [numbersOf, firstSeen]
  have distinct := List.Nodup.map_on
    (fun key seen other otherSeen => (place_inj few seen otherSeen).mp) (nodup_firstSeen faces)
  rw [members, List.toFinset_card_of_nodup distinct, List.length_map]

end Few

/-- The numbers of normals are in the order of their first occurrence. Induction from the
right: a normal whose key is new has the place behind all others. -/
theorem firstSeenOrder_numbersOf (few : (firstSeen faces).length ≤ UInt32.size) :
    FirstSeenOrder (numbersOf faces) := by
  induction faces using List.reverseRecOn with
  | nil => exact firstSeenOrder_nil
  | append_singleton rest face inductionHypothesis =>
    have fewBefore := (length_firstSeen_le rest face).trans few
    rw [numbersOf_concat, firstSeenOrder_concat_iff]
    refine ⟨inductionHypothesis fewBefore, fun fresh => ?_⟩
    have unseen : face.key ∉ firstSeen rest := by
      intro seen
      obtain ⟨earlier, listed, same⟩ := List.mem_map.mp (List.mem_eraseDups.mp seen)
      apply fresh
      rw [← same]
      exact List.mem_map_of_mem listed
    have added : (firstSeen (rest ++ [face])).length = (firstSeen rest).length + 1 := by
      rw [firstSeen_concat, if_neg unseen, List.length_append, List.length_singleton]
    rw [card_numbersOf fewBefore, List.idxOf_eq_length_iff.mpr unseen]
    exact UInt32.toNat_ofNat_of_lt' (by omega)

/-- What makes shared normals those of some triangles, given the flat normal of each and the
key by which normals are told apart, with nothing to choose and nothing to spare. -/
structure Canonical (key : Vector3 α → Vector3 UInt32) (faces : List (Vector3 α))
    (shared : SharedNormals α) : Prop where
  /-- Every triangle has three corners. -/
  length : shared.indices.length = 3 * faces.length
  /-- They have one number in common. -/
  common : ∀ corner : Nat, shared.indices[corner]? = shared.indices[3 * (corner / 3)]?
  /-- No two normals that are stored have the same key. -/
  distinct : (shared.normals.map key).Nodup
  /-- Every normal that is stored is that of some corner. -/
  used : ∀ place < shared.normals.length, ∃ number ∈ shared.indices, number.toNat = place
  /-- The numbers are in the order of their first occurrence. -/
  order : FirstSeenOrder shared.indices
  /-- Two triangles have the same number exactly if their normals have the same key. -/
  same_iff : ∀ (first second : Nat) (face other : Vector3 α),
    faces[first]? = some face → faces[second]? = some other →
      (shared.indices[3 * first]? = shared.indices[3 * second]? ↔ key face = key other)

namespace Numbering.Represents

variable {numbering : Numbering α}

/-- The numbers of the triangles are repeated for their corners. -/
theorem indices_eq (represents : numbering.Represents faces) :
    numbering.finish.indices = (numbersOf faces).flatMap (List.replicate 3) := by
  rw [Numbering.finish, represents.numbers, numbersOf]

/-- A triangle has the number of its normal. -/
theorem getElem?_indices (represents : numbering.Represents faces) {triangle : Nat}
    {face : Vector3 α} (listed : faces[triangle]? = some face) :
    numbering.finish.indices[3 * triangle]? =
      some ((firstSeen faces).idxOf face.key).toUInt32 := by
  rw [represents.indices_eq, Triangle.getElem?_repeated, Nat.mul_div_cancel_left _ (by decide),
    numbersOf, List.getElem?_map, listed, Option.map_some]

/-- The place of every key is the number of a triangle. -/
theorem exists_number (represents : numbering.Represents faces)
    (few : (firstSeen faces).length ≤ UInt32.size) {place : Nat}
    (inside : place < (firstSeen faces).length) :
    ∃ number ∈ numbering.finish.indices, number.toNat = place := by
  have seen := List.getElem_mem inside
  obtain ⟨face, listed, same⟩ := List.mem_map.mp (List.mem_eraseDups.mp seen)
  refine ⟨((firstSeen faces).idxOf face.key).toUInt32, ?_, ?_⟩
  · rw [represents.indices_eq, mem_repeated]
    exact List.mem_map_of_mem listed
  · rw [toNat_place few (key_mem_firstSeen listed), same]
    exact (nodup_firstSeen faces).idxOf_getElem place inside

/-- Up to 2³² keys, a finished numbering is canonical. -/
theorem canonical (represents : numbering.Represents faces)
    (few : (firstSeen faces).length ≤ UInt32.size) :
    Canonical Vector3.key faces numbering.finish := by
  have keys : numbering.finish.normals.map Vector3.key = firstSeen faces := represents.keys
  constructor
  case length => exact represents.length_indices
  case common =>
    intro corner
    rw [represents.indices_eq, Triangle.getElem?_repeated, Triangle.getElem?_repeated,
      Nat.mul_div_cancel_left _ (by decide)]
  case distinct =>
    rw [keys]
    exact nodup_firstSeen faces
  case used =>
    intro place inside
    apply represents.exists_number few
    rwa [← keys, List.length_map]
  case order =>
    rw [represents.indices_eq]
    exact (firstSeenOrder_numbersOf few).repeated
  case same_iff =>
    intro first second face other listed otherListed
    rw [represents.getElem?_indices listed, represents.getElem?_indices otherListed,
      Option.some.injEq]
    exact place_inj few (key_mem_firstSeen (List.mem_of_getElem? listed))
      (key_mem_firstSeen (List.mem_of_getElem? otherListed))

end Numbering.Represents

/-- The shared normals of an accepted index list with at most 2³² different normals are
canonical for the flat normals of its triangles, told apart by their bits, and there is one
number for every index. -/
theorem shared_normals_are_canonical {indices : IndexBuffer} {positions : Array (Vector3 α)}
    {shared : SharedNormals α} (accepted : ofIndices indices positions = .ok shared)
    (few : (firstSeen (faceNormals indices positions)).length ≤ UInt32.size) :
    shared.indices.length = indices.length ∧
      Canonical Vector3.key (faceNormals indices positions) shared := by
  obtain ⟨whole, _, rfl⟩ := ofIndices_eq_ok_iff.mp accepted
  have represents := Numbering.represents_nil.run (faceNormals indices positions)
  rw [List.nil_append] at represents
  refine ⟨?_, represents.canonical few⟩
  rw [represents.length_indices, length_faceNormals]
  omega

/-- The corners of a square and the points above two of them. -/
def foldedSheetPositions : Array (Vector3 FloatWord) :=
  #[⟨0, 0, 0⟩, ⟨1, 0, 0⟩, ⟨1, 1, 0⟩, ⟨0, 1, 0⟩, ⟨1, 0, 1⟩]

/-- Half of the square, a triangle that stands on its edge, and the other half. -/
def foldedSheet : IndexBuffer := .uint8 [0, 1, 2, 1, 4, 2, 0, 2, 3]

/-- The two halves have the same number though the standing triangle comes between them, and
that one has the next number. -/
theorem foldedSheet_normals_are_canonical :
    ∃ shared, ofIndices foldedSheet foldedSheetPositions = .ok shared ∧
      (firstSeen (faceNormals foldedSheet foldedSheetPositions)).length = 2 ∧
      Canonical Vector3.key (faceNormals foldedSheet foldedSheetPositions) shared ∧
      shared.indices = [0, 0, 0, 1, 1, 1, 0, 0, 0] := by
  have two : (firstSeen (faceNormals foldedSheet foldedSheetPositions)).length = 2 := by
    decide +kernel
  have few : (firstSeen (faceNormals foldedSheet foldedSheetPositions)).length ≤
      UInt32.size := by
    rw [two]
    decide
  have accepted := ofIndices_eq_ok_iff.mpr
    ⟨show foldedSheet.length % 3 = 0 by decide,
      show ∀ vertex ∈ foldedSheet.vertices, vertex < foldedSheetPositions.size by decide, rfl⟩
  exact ⟨_, accepted, two, (shared_normals_are_canonical accepted few).2, by decide +kernel⟩

/-- The bits of a vector, all NaNs in a component counting as one value. -/
def mergedKey (vector : Vector3 α) : Vector3 UInt32 :=
  ⟨Scalar.mergeNaNs vector.key.x, Scalar.mergeNaNs vector.key.y, Scalar.mergeNaNs vector.key.z⟩

/-- Three points on a line, and one whose coordinates are NaNs. -/
def strayPointPositions : Array (Vector3 FloatWord) :=
  #[⟨0, 0, 0⟩, ⟨1, 0, 0⟩, ⟨1 + 1, 0, 0⟩, ⟨⟨Scalar.nanBits⟩, ⟨Scalar.nanBits⟩, ⟨Scalar.nanBits⟩⟩]

/-- A triangle on the line, and another that has the stray point for a corner. -/
def strayPoint : IndexBuffer := .uint8 [0, 1, 2, 3, 1, 2]

/-- No triangle has a normal that is a number, and yet two normals are stored: one is made of
the NaNs that zero divided by zero gives, and the other of those of the stray point. -/
theorem strayPoint_normals_stored_apart :
    ∃ shared, ofIndices strayPoint strayPointPositions = .ok shared ∧
      (faceNormals strayPoint strayPointPositions).length = 2 ∧
      shared.indices = [0, 0, 0, 1, 1, 1] ∧
      shared.normals.map Vector3.key =
        [⟨0xffc00000, 0xffc00000, 0xffc00000⟩, ⟨0x7fc00000, 0x7fc00000, 0x7fc00000⟩] ∧
      ¬ Canonical mergedKey (faceNormals strayPoint strayPointPositions) shared := by
  have accepted := ofIndices_eq_ok_iff.mpr
    ⟨show strayPoint.length % 3 = 0 by decide,
      show ∀ vertex ∈ strayPoint.vertices, vertex < strayPointPositions.size by decide, rfl⟩
  refine ⟨_, accepted, by decide +kernel, by decide +kernel, by decide +kernel,
    fun canonical => ?_⟩
  exact absurd canonical.distinct (by decide +kernel)

end RenderAssets.SharedNormals
