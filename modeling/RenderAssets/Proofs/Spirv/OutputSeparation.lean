import Mathlib.Data.List.Nodup
import RenderAssets.Proofs.Spirv.LocatedSlots
import RenderAssets.Proofs.Spirv.ScanAcceptance

/-!
# What separation guarantees of the two stages

Where separation is applied and its fresh locations do not wrap around, no vertex
output shares a location with a fragment output afterwards, unless the two are one
variable listed by both interfaces. Where vertex outputs and fragment inputs have
distinct locations each, an output is read by the same inputs afterwards as before.

Both are read off a run over the located slots. Nothing else is asked of the module:
its interfaces may repeat ids and share them, and its sections may stand in any order.
-/

namespace RenderAssets.Spirv

section Module

variable {words : List UInt32}

/-- Where separation is applied, the interfaces are those read off the listing, and
the words are what the relocation makes of them. -/
theorem of_applied (applied : (separateOutputs words).applied = true) :
    StageInterfaces.scan? words = some (.ofListed words) ∧
      (separateOutputs words).words = (Relocation.ofInterfaces (.ofListed words) words).words := by
  have scannable := applied_iff_scannable.1.mp applied
  have scanned := (scan?_eq_some_iff (.ofListed words)).mpr ⟨scannable, rfl⟩
  rw [separateOutputs, scanned]
  exact ⟨rfl, rfl⟩

/-- The vertex outputs and the places of another storage class in the fragment interface
hold, before the relocation, locations no higher than the highest of the module. -/
theorem bounded_of_stages (storageClass : UInt32) :
    Relocation.Bounded (Slot.located outputClass (StageInterfaces.ofListed words).vertex ++
        Slot.located storageClass (StageInterfaces.ofListed words).fragment)
      { words, highestLocation := (StageInterfaces.ofListed words).highestLocation } := by
  apply located_bounded
  intro place member
  rcases List.mem_append.mp member with output | rival
  · exact ⟨_, _, output⟩
  · exact ⟨_, _, rival⟩

end Module

/-- Where separation is applied, no vertex output shares a location with a fragment
output afterwards, except a variable with itself. The highest location and the number
of located vertex outputs are asked to leave room for the fresh locations.

Interfaces may repeat an id or both list the same output, and vertex outputs may
share a location to begin with. -/
theorem outputs_share_no_location (words : List UInt32)
    (applied : (separateOutputs words).applied = true) :
    ∃ interfaces, StageInterfaces.scan? words = some interfaces ∧
      (interfaces.highestLocation.toNat +
          (Slot.located outputClass interfaces.vertex).length < UInt32.size →
        ∀ output ∈ interfaces.vertex, ∀ rival ∈ interfaces.fragment, ∀ place rivalPlace,
          output.LocatedIn outputClass place → rival.LocatedIn outputClass rivalPlace →
          (separateOutputs words).words[place]? = (separateOutputs words).words[rivalPlace]? →
            output.id = rival.id ∧ place = rivalPlace) := by
  refine ⟨.ofListed words, (of_applied applied).1, ?_⟩
  intro room output member rival rivalMember place rivalPlace located rivalLocated agree
  rw [(of_applied applied).2] at agree
  have different : outputClass ≠ inputClass := by decide
  have separated := Relocation.separated_ofInterfaces (bounded_of_stages outputClass) room
    (fun output known => located_apart different known)
    (fun rival known => located_apart different known)
  have same : place = rivalPlace := separated place
    (Slot.mem_located_iff.mpr ⟨output, member, located⟩) rivalPlace
    (Slot.mem_located_iff.mpr ⟨rival, rivalMember, rivalLocated⟩) agree
  subst same
  exact ⟨id_eq_of_located member rivalMember located.2 rivalLocated.2, rfl⟩

/-- A module of a vertex and a fragment entry point, whose names are empty, with
the locations and the storage classes of ids. -/
def linkedModule (vertexIds fragmentIds : List UInt32)
    (locations storageClasses : List (UInt32 × UInt32)) : List UInt32 :=
  [0x07230203, 0x00010000, 0, 64, 0] ++
    encodeInstruction Opcode.entryPoint.toUInt16
      ([Stage.vertex.executionModel, 1, 0] ++ vertexIds) ++
    encodeInstruction Opcode.entryPoint.toUInt16
      ([Stage.fragment.executionModel, 2, 0] ++ fragmentIds) ++
    locations.flatMap (fun entry =>
      encodeInstruction Opcode.decorate.toUInt16 [entry.1, locationDecoration, entry.2]) ++
    storageClasses.flatMap (fun entry =>
      encodeInstruction Opcode.declareVariable.toUInt16 [9, entry.1, entry.2])

/-- The outputs 10 and 11 of the vertex stage and 10 and 20 of the fragment stage
all have location zero. The first is listed by both stages, and twice by each. -/
def crowdedModule : List UInt32 :=
  linkedModule [10, 11, 10] [21, 10, 20, 10] [(10, 0), (11, 0), (20, 0), (21, 0)]
    [(10, outputClass), (11, outputClass), (20, outputClass), (21, inputClass)]

/-- Both vertex outputs leave the location that they share with the fragment output 20,
and the other vertex output leaves the one that it shares with 10. -/
theorem crowded_outputs_share_no_location :
    (separateOutputs crowdedModule).applied = true ∧
      crowdedModule[23]? = crowdedModule[31]? ∧ crowdedModule[27]? = crowdedModule[31]? ∧
      (separateOutputs crowdedModule).words[23]? ≠ (separateOutputs crowdedModule).words[31]? ∧
      (separateOutputs crowdedModule).words[27]? ≠ (separateOutputs crowdedModule).words[31]? ∧
      (separateOutputs crowdedModule).words[27]? ≠ (separateOutputs crowdedModule).words[23]? := by
  have applied : (separateOutputs crowdedModule).applied = true :=
    applied_iff_scannable.1.mpr (by decide)
  obtain ⟨interfaces, scanned, apart⟩ := outputs_share_no_location crowdedModule applied
  obtain rfl := ((scan?_eq_some_iff interfaces).mp scanned).2
  have separate := apart (by decide)
  refine ⟨applied, by decide, by decide, ?_, ?_, ?_⟩
  · intro agree
    have same := separate ⟨10, some 23, some outputClass⟩ (by decide)
      ⟨20, some 31, some outputClass⟩ (by decide) 23 31 ⟨rfl, rfl⟩ ⟨rfl, rfl⟩ agree
    exact absurd same.2 (by decide)
  · intro agree
    have same := separate ⟨11, some 27, some outputClass⟩ (by decide)
      ⟨20, some 31, some outputClass⟩ (by decide) 27 31 ⟨rfl, rfl⟩ ⟨rfl, rfl⟩ agree
    exact absurd same.2 (by decide)
  · intro agree
    have same := separate ⟨11, some 27, some outputClass⟩ (by decide)
      ⟨10, some 23, some outputClass⟩ (by decide) 27 23 ⟨rfl, rfl⟩ ⟨rfl, rfl⟩ agree
    exact absurd same.2 (by decide)

/-- Where separation is applied, a vertex output and a fragment input share a location
afterwards exactly when they did before. The located vertex outputs are asked to have
distinct locations, and so are the located fragment inputs; an output may be listed by
both interfaces.

Every step renames one location to an unused one in both lists, so no two places of
the lists come to agree and none that agreed come apart. -/
theorem stages_still_match (words : List UInt32)
    (applied : (separateOutputs words).applied = true) :
    ∃ interfaces, StageInterfaces.scan? words = some interfaces ∧
      (((Slot.located outputClass interfaces.vertex).map (words[·]?)).Nodup →
        ((Slot.located inputClass interfaces.fragment).map (words[·]?)).Nodup →
        interfaces.highestLocation.toNat +
          (Slot.located outputClass interfaces.vertex).length < UInt32.size →
        ∀ output ∈ Slot.located outputClass interfaces.vertex,
          ∀ input ∈ Slot.located inputClass interfaces.fragment,
            (separateOutputs words).words[output]? = (separateOutputs words).words[input]? ↔
              words[output]? = words[input]?) := by
  refine ⟨.ofListed words, (of_applied applied).1, ?_⟩
  intro outputs inputs room output member input inputMember
  rw [(of_applied applied).2]
  have different : outputClass ≠ inputClass := by decide
  have kept := Relocation.sameSharing_ofInterfaces (bounded_of_stages inputClass) room
    (fun output known => located_apart different known)
    (fun place known other otherKnown agree =>
      List.inj_on_of_nodup_map outputs known otherKnown agree)
    (fun place known other otherKnown agree =>
      List.inj_on_of_nodup_map inputs known otherKnown agree)
  exact kept output (List.mem_append_left _ member) input (List.mem_append_right _ inputMember)

/-- The vertex outputs 10 and 11 are read by the fragment inputs 21 and 22. Output 10,
which both stages list, shares its location with the fragment output 20. -/
def matchedModule : List UInt32 :=
  linkedModule [10, 11] [21, 22, 10, 20] [(10, 0), (11, 1), (20, 0), (21, 0), (22, 1)]
    [(10, outputClass), (11, outputClass), (20, outputClass), (21, inputClass), (22, inputClass)]

/-- Output 10 moves together with the input that reads it. Nothing else comes to share
a location with either. -/
theorem matched_stages_still_match :
    (separateOutputs matchedModule).words[22]? = (separateOutputs matchedModule).words[34]? ∧
      (separateOutputs matchedModule).words[26]? = (separateOutputs matchedModule).words[38]? ∧
      (separateOutputs matchedModule).words[22]? ≠ (separateOutputs matchedModule).words[38]? ∧
      (separateOutputs matchedModule).words[26]? ≠ (separateOutputs matchedModule).words[34]? := by
  have applied : (separateOutputs matchedModule).applied = true :=
    applied_iff_scannable.1.mpr (by decide)
  obtain ⟨interfaces, scanned, kept⟩ := stages_still_match matchedModule applied
  obtain rfl := ((scan?_eq_some_iff interfaces).mp scanned).2
  have same := kept (by decide) (by decide) (by decide)
  refine ⟨?_, ?_, ?_, ?_⟩
  · exact (same 22 (by decide) 34 (by decide)).mpr (by decide)
  · exact (same 26 (by decide) 38 (by decide)).mpr (by decide)
  · exact fun agree => absurd ((same 22 (by decide) 38 (by decide)).mp agree) (by decide)
  · exact fun agree => absurd ((same 26 (by decide) 34 (by decide)).mp agree) (by decide)

end RenderAssets.Spirv
