import Mathlib.Data.List.Perm.Basic

/-!
# Segments around an axis

Segments are numbered around an axis, and the first one follows the last. Following is a
permutation of the segments, so what is said of every segment can be said of the one after
it instead. Of three segments or more, no two follow each other both ways. If there is an
even number of them, even and odd ones take turns all the way around.
-/

namespace RenderAssets.Shape

/-- The segment before a given one; the last one comes before the first. -/
def preceding (count segment : Nat) : Nat := (segment + (count - 1)) % count

variable {count segment : Nat}

/-- The segment after another one is the next one, or the first after the last. -/
theorem following_cases (inside : segment < count) :
    (segment + 1 < count ∧ (segment + 1) % count = segment + 1) ∨
      (segment + 1 = count ∧ (segment + 1) % count = 0) := by
  rcases Nat.lt_or_eq_of_le (Nat.succ_le_of_lt inside) with next | last
  · exact .inl ⟨next, Nat.mod_eq_of_lt next⟩
  · exact .inr ⟨last, by rw [← last, Nat.mod_self]⟩

/-- The segments that follow others are all of them, beginning with the second one. -/
theorem following_perm (count : Nat) :
    ((List.range count).map fun segment => (segment + 1) % count).Perm (List.range count) := by
  cases count with
  | zero => exact .refl _
  | succ last =>
    have before : (List.range last).map (fun segment => (segment + 1) % (last + 1)) =
        (List.range last).map Nat.succ := by
      apply List.map_congr_left
      intro segment listed
      exact Nat.mod_eq_of_lt (Nat.succ_lt_succ (List.mem_range.mp listed))
    have turned : (List.range (last + 1)).map (fun segment => (segment + 1) % (last + 1)) =
        (List.range last).map Nat.succ ++ [0] := by
      rw [List.range_succ, List.map_append, before, List.map_singleton, Nat.mod_self]
    rw [turned, List.range_succ_eq_map]
    exact List.perm_append_singleton 0 _

/-- Three segments on, one is past the segment one came from. -/
theorem following_apart (several : 3 ≤ count) (inside : segment < count) :
    (segment + 1) % count ≠ segment ∧ ((segment + 1) % count + 1) % count ≠ segment := by
  have next := following_cases inside
  have after := following_cases (Nat.mod_lt (segment + 1) (by omega : 0 < count))
  omega

/-- A segment comes before another one if the other one follows it. -/
theorem preceding_eq_iff (inside : segment < count) {other : Nat} (otherInside : other < count) :
    preceding count segment = other ↔ (other + 1) % count = segment := by
  have next := following_cases otherInside
  have before : preceding count segment = if segment = 0 then count - 1 else segment - 1 := by
    rw [preceding]
    split
    next first => rw [first, Nat.zero_add, Nat.mod_eq_of_lt (by omega)]
    next later =>
      have turn : segment + (count - 1) = segment - 1 + count := by omega
      rw [turn, Nat.add_mod_right, Nat.mod_eq_of_lt (by omega)]
  rw [before]
  split <;> omega

/-- With an even number of segments, an odd one follows every even one and the other way
round, the last and the first one included. -/
theorem following_mod_two (even : count % 2 = 0) (segment : Nat) :
    (segment + 1) % count % 2 = (segment + 1) % 2 :=
  Nat.mod_mod_of_dvd _ (Nat.dvd_of_mod_eq_zero even)

end RenderAssets.Shape
