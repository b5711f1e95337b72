import Mathlib.Data.List.Nodup
import Mathlib.Data.List.Perm.Basic
import Mathlib.Data.Prod.Basic
import RenderAssets.Mesh.Triangle

/-!
# Surfaces and their borders

A triangle runs around along three directed edges, in winding order. Triangles form a
closed surface if every edge that one of them runs along is run along once, and once the
other way: then there is one neighbour at every side of a triangle, and neighbours are wound
alike. Where a surface ends, a triangle runs along its border and nothing runs back.

It is enough to name every side once, in one of its directions. If the edges of the
triangles are the named ones together with their reverses, in whatever order, and none of
these is repeated, the surface is closed. If they are so with the reverses of some edges
added, these edges are its border. Where sides belong to parts of the surface, none is
repeated if the part can be told from the edge.
-/

namespace RenderAssets.Triangle

variable {κ : Type}

/-- The directed edges of a triangle, in winding order. -/
def edges (triangle : Triangle κ) : List (κ × κ) :=
  [(triangle.first, triangle.second), (triangle.second, triangle.third),
    (triangle.third, triangle.first)]

/-- Every directed edge occurs once among those of all triangles, and so does its reverse. -/
def Closed [DecidableEq κ] (triangles : List (Triangle κ)) : Prop :=
  ∀ edge ∈ triangles.flatMap edges,
    (triangles.flatMap edges).count edge = 1 ∧ (triangles.flatMap edges).count edge.swap = 1

/-- Every directed edge occurs once among those of all triangles, and so does its reverse
unless the edge is on the border. The border is made up of such edges, and the reverse of
none of them occurs. -/
structure Bordered [DecidableEq κ] (triangles : List (Triangle κ)) (border : List (κ × κ)) :
    Prop where
  once : ∀ edge ∈ triangles.flatMap edges, (triangles.flatMap edges).count edge = 1
  paired : ∀ edge ∈ triangles.flatMap edges, edge ∉ border →
    (triangles.flatMap edges).count edge.swap = 1
  occurs : ∀ edge ∈ border, edge ∈ triangles.flatMap edges
  oneWay : ∀ edge ∈ border, edge.swap ∉ triangles.flatMap edges

/-- Sides that are run along forwards, and sides that are run along backwards. -/
def along (forward backward : List (κ × κ)) : List (κ × κ) := forward ++ backward.map Prod.swap

/-- The order in which sides are named only changes the order of the edges. -/
theorem along_perm {forward ahead backward behind : List (κ × κ)} (first : forward.Perm ahead)
    (second : backward.Perm behind) : (along forward backward).Perm (along ahead behind) :=
  first.append (second.map Prod.swap)

/-- Sides can be run along in two parts. -/
theorem along_append_perm (forward ahead backward behind : List (κ × κ)) :
    (along (forward ++ ahead) (backward ++ behind)).Perm
      (along forward backward ++ along ahead behind) := by
  simp only [along, List.map_append, List.append_assoc]
  exact .append_left _ (List.perm_append_comm_assoc ..)

/-- And part by part. -/
theorem along_flatMap_perm {β : Type} (parts : List β) (forward backward : β → List (κ × κ)) :
    (along (parts.flatMap forward) (parts.flatMap backward)).Perm
      (parts.flatMap fun part => along (forward part) (backward part)) := by
  rw [along, List.map_flatMap]
  exact List.flatMap_append_perm parts forward _

/-- Edges and their reverses. -/
def bothWays (sides : List (κ × κ)) : List (κ × κ) := sides ++ sides.map Prod.swap

/-- With an edge there is its reverse. -/
theorem swap_mem_bothWays {sides : List (κ × κ)} {edge : κ × κ} (listed : edge ∈ bothWays sides) :
    edge.swap ∈ bothWays sides := by
  rcases List.mem_append.mp listed with forward | backward
  · exact List.mem_append_right _ (List.mem_map_of_mem forward)
  · obtain ⟨side, member, rfl⟩ := List.mem_map.mp backward
    exact List.mem_append_left _ (Prod.swap_swap side ▸ member)

/-- Sides in another order are the same edges in another order. -/
theorem bothWays_perm {sides others : List (κ × κ)} (same : sides.Perm others) :
    (bothWays sides).Perm (bothWays others) :=
  along_perm same same

/-- Sides can be taken both ways part by part. -/
theorem bothWays_flatMap_perm {β : Type} (parts : List β) (sides : β → List (κ × κ)) :
    (bothWays (parts.flatMap sides)).Perm (parts.flatMap fun part => bothWays (sides part)) :=
  along_flatMap_perm parts sides sides

/-- No entry is repeated if none is in any part and the part of an entry can be told from
it. -/
theorem nodup_flatMap_of_owner {β γ : Type} {parts : List β} {entries : β → List γ}
    (owner : γ → β) (distinct : parts.Nodup) (once : ∀ part ∈ parts, (entries part).Nodup)
    (owned : ∀ part ∈ parts, ∀ entry ∈ entries part, owner entry = part) :
    (parts.flatMap entries).Nodup := by
  refine List.nodup_flatMap.mpr ⟨once, distinct.imp_of_mem ?_⟩
  intro part other member otherMember different entry listed otherListed
  exact different ((owned part member entry listed).symm.trans
    (owned other otherMember entry otherListed))

section Surfaces

variable [DecidableEq κ] {triangles : List (Triangle κ)} {border sides : List (κ × κ)}

/-- A surface has a border if the border, taken the other way, completes its edges to some
sides taken both ways, without repetition. -/
theorem bordered_of_sides
    (same : (triangles.flatMap edges ++ border.map Prod.swap).Perm (bothWays sides))
    (once : (bothWays sides).Nodup) (occurs : ∀ edge ∈ border, edge ∈ triangles.flatMap edges) :
    Bordered triangles border := by
  obtain ⟨distinct, _, apart⟩ := List.nodup_append.mp (same.nodup_iff.mpr once)
  refine ⟨fun edge listed => List.count_eq_one_of_mem distinct listed, ?_, occurs, ?_⟩
  · intro edge listed inner
    have known : edge ∈ bothWays sides := same.mem_iff.mp (List.mem_append_left _ listed)
    rcases List.mem_append.mp (same.mem_iff.mpr (swap_mem_bothWays known)) with back | added
    · exact List.count_eq_one_of_mem distinct back
    · obtain ⟨other, onBorder, reverse⟩ := List.mem_map.mp added
      exact absurd (Prod.swap_injective reverse ▸ onBorder) inner
  · intro edge onBorder back
    exact apart edge.swap back edge.swap (List.mem_map_of_mem onBorder) rfl

/-- A surface is closed if its edges are some sides taken both ways, without repetition. -/
theorem closed_of_sides (same : (triangles.flatMap edges).Perm (bothWays sides))
    (once : (bothWays sides).Nodup) : Closed triangles := by
  have bordered : Bordered triangles [] :=
    bordered_of_sides (by simpa using same) once (fun _ none => absurd none List.not_mem_nil)
  exact fun edge listed =>
    ⟨bordered.once edge listed, bordered.paired edge listed List.not_mem_nil⟩

end Surfaces

end RenderAssets.Triangle
