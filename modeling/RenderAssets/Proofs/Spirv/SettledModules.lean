import RenderAssets.Proofs.Spirv.PreservedStructure

/-!
# Modules that separation leaves as they are

Two kinds of modules come out of a separation word for word as they went in, even
where it is applied. In a truncated module the search for one more entry point uses
the cursor up, so that no decoration is ever looked at, and no output is located.
In a module that has been separated before, no vertex output is in conflict: the
second scan finds the outputs of the first one, and these hold other locations than
the fragment outputs. An output that both stages list is in conflict with itself for
good, which is why there must be none.
-/

namespace RenderAssets.Spirv

section Module

variable {words : List UInt32}

/-- No location is scanned in a truncated module. -/
theorem scannedLocations_of_truncated (truncated : (Listing.ofWords words).truncated = true) :
    scannedLocations words = [] := by
  have none : (Listing.ofWords words).decorations = [] := by
    apply List.eq_nil_iff_forall_not_mem.mpr
    intro instruction member
    exact Bool.eq_false_iff.mp (Listing.mem_decorations_iff.mp member).1 truncated
  rw [scannedLocations, none, List.filterMap_nil]

/-- Nor is a variable. -/
theorem scannedVariables_of_truncated (truncated : (Listing.ofWords words).truncated = true) :
    scannedVariables words = [] := by
  have none : (Listing.ofWords words).declaredVariables = [] := by
    apply List.eq_nil_iff_forall_not_mem.mpr
    intro instruction member
    exact Bool.eq_false_iff.mp (Listing.mem_declaredVariables_iff.mp member).1 truncated
  rw [scannedVariables, none, List.filterMap_nil]

/-- Nothing is located in a truncated module. -/
theorem unlocated_of_truncated (truncated : (Listing.ofWords words).truncated = true)
    (ids : List UInt32) (storageClass : UInt32) :
    Slot.located storageClass (slotsOf words ids) = [] := by
  apply List.eq_nil_iff_forall_not_mem.mpr
  intro place member
  have scanned := mem_offsets_of_located member
  rw [scannedLocations_of_truncated truncated] at scanned
  exact absurd scanned List.not_mem_nil

/-- Outputs are in conflict with none that hold other locations. -/
theorem unmoved_of_separated {interfaces : StageInterfaces}
    (apart : ∀ output ∈ Slot.located outputClass interfaces.vertex,
      ∀ rival ∈ Slot.located outputClass interfaces.fragment, words[output]? ≠ words[rival]?) :
    Relocation.movedOfInterfaces interfaces words = [] := by
  apply Relocation.unmoved_of_peace
  intro output member
  rw [Bool.eq_false_iff]
  intro conflict
  obtain ⟨location, held, rival, rivalMember, rivalHeld⟩ := Relocation.conflicting_iff.mp conflict
  exact apart output member rival rivalMember (held.trans rivalHeld.symm)

/-- Where no output is moved, separation is applied without changing a word. -/
theorem separateOutputs_of_unmoved {interfaces : StageInterfaces}
    (scanned : StageInterfaces.scan? words = some interfaces)
    (unmoved : Relocation.movedOfInterfaces interfaces words = []) :
    separateOutputs words = { applied := true, words } := by
  rw [separateOutputs, scanned]
  simp only [Relocation.ofInterfaces, Relocation.run_of_unmoved unmoved]

end Module

/-- A truncated module comes out of separation as it went in, whether or not it is
applied. It does not matter where the module breaks off: conflicting decorations and
variables in front of that place are not looked at either. -/
theorem truncated_module_unchanged (words : List UInt32)
    (truncated : (Cursor.start words).readAll.2.truncated = true) :
    (separateOutputs words).words = words := by
  rw [(Cursor.readAll_start words).2] at truncated
  obtain ⟨_, touched, _, known, unwritten⟩ := separateOutputs_touches words
  have untouched : ∀ place, place ∉ touched := by
    intro place member
    rcases known place member with output | input
    · rw [unlocated_of_truncated truncated] at output
      exact absurd output List.not_mem_nil
    · rw [unlocated_of_truncated truncated] at input
      exact absurd input List.not_mem_nil
  apply List.ext_getElem?
  intro place
  exact unwritten place (untouched place)

/-- A module with conflicts is changed, but not with one more word behind it that
declares no words. Separation is applied to both. -/
theorem crowded_module_unchanged_when_truncated :
    (separateOutputs crowdedModule).words ≠ crowdedModule ∧
      (separateOutputs (crowdedModule ++ [0])).applied = true ∧
      (separateOutputs (crowdedModule ++ [0])).words = crowdedModule ++ [0] := by
  refine ⟨?_, applied_iff_scannable.1.mpr (by decide), ?_⟩
  · rw [(of_applied (applied_iff_scannable.1.mpr (by decide))).2]
    decide
  · apply truncated_module_unchanged
    rw [(Cursor.readAll_start (crowdedModule ++ [0])).2]
    decide

/-- Separating a module twice is separating it once, where no id is a located output
of both stages and there is room for the fresh locations: the second time it is
applied as well and changes no word. -/
theorem separateOutputs_twice (words : List UInt32)
    (applied : (separateOutputs words).applied = true) :
    ∃ interfaces, StageInterfaces.scan? words = some interfaces ∧
      ((∀ output ∈ interfaces.vertex, ∀ rival ∈ interfaces.fragment, ∀ place rivalPlace,
          output.LocatedIn outputClass place → rival.LocatedIn outputClass rivalPlace →
            output.id ≠ rival.id) →
        interfaces.highestLocation.toNat +
          (Slot.located outputClass interfaces.vertex).length < UInt32.size →
        separateOutputs (separateOutputs words).words =
          { applied := true, words := (separateOutputs words).words }) := by
  obtain ⟨scanned, separated⟩ := of_applied applied
  refine ⟨.ofListed words, scanned, ?_⟩
  intro unshared room
  have scannedAgain := scan?_separateOutputs words
  rw [scanned, Option.map_some] at scannedAgain
  apply separateOutputs_of_unmoved scannedAgain
  apply unmoved_of_separated
  intro output member rival rivalMember agree
  have different : outputClass ≠ inputClass := by decide
  have apart := Relocation.separated_ofInterfaces (bounded_of_stages outputClass) room
    (fun output known => located_apart different known)
    (fun rival known => located_apart different known)
  rw [separated] at agree
  obtain rfl := apart output member rival rivalMember agree
  obtain ⟨slot, belongs, located⟩ := Slot.mem_located_iff.mp member
  obtain ⟨rivalSlot, rivalBelongs, rivalLocated⟩ := Slot.mem_located_iff.mp rivalMember
  have sameId := id_eq_of_located belongs rivalBelongs located.2 rivalLocated.2
  exact unshared slot belongs rivalSlot rivalBelongs output output located rivalLocated sameId

/-- The vertex outputs 10 and 11 share location zero with each other and with the
fragment output 20; the fragment inputs 21 and 22 read it. -/
def contestedModule : List UInt32 :=
  linkedModule [10, 11] [21, 22, 20] [(10, 0), (11, 0), (20, 0), (21, 0), (22, 0)]
    [(10, outputClass), (11, outputClass), (20, outputClass), (21, inputClass), (22, inputClass)]

/-- Both outputs move the first time, and nothing does the second time. -/
theorem contested_module_separated_twice :
    (separateOutputs contestedModule).words ≠ contestedModule ∧
      separateOutputs (separateOutputs contestedModule).words =
        { applied := true, words := (separateOutputs contestedModule).words } := by
  have applied : (separateOutputs contestedModule).applied = true :=
    applied_iff_scannable.1.mpr (by decide)
  refine ⟨?_, ?_⟩
  · rw [(of_applied applied).2]
    decide
  · obtain ⟨interfaces, scanned, settles⟩ := separateOutputs_twice contestedModule applied
    obtain rfl := ((scan?_eq_some_iff interfaces).mp scanned).2
    have disjoint : ∀ output ∈ (StageInterfaces.ofListed contestedModule).vertex,
        ∀ rival ∈ (StageInterfaces.ofListed contestedModule).fragment, output.id ≠ rival.id := by
      decide
    refine settles ?_ (by decide)
    intro output member rival rivalMember _ _ _ _
    exact disjoint output member rival rivalMember

end RenderAssets.Spirv
