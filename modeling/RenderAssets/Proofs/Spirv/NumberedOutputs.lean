import Mathlib.Data.List.Nodup
import RenderAssets.Proofs.Spirv.MovedOutputs
import RenderAssets.Proofs.Spirv.OutputSeparation
import RenderAssets.Proofs.Spirv.RelocatedIds

/-!
# The locations after a separation, in closed form

A run compares locations as they stand by then. What it does can be said of the locations
there were at first, though, as long as no output is listed by both stages. An output keeps
its location until its own turn, and a fragment output keeps it throughout; so the outputs
in conflict are those that were in conflict at first, and they take the locations past the
highest one in the order of the interface. Numbering starts again at zero behind the last
location, and that makes no difference here.

Among the fragment inputs, the first that holds a location goes with the first output that
leaves it, the next one with the next such output, and so on. Here it matters that the
fresh locations are not in use: otherwise an input that has moved could be taken for one
that has still to move.
-/

namespace RenderAssets.Spirv.Relocation

variable {fragmentOutputs fragmentInputs : List Nat}

/-- Outputs and inputs are listed once each, and no place is both. -/
structure ListedApart (outputs inputs : List Nat) : Prop where
  outputsOnce : outputs.Nodup
  inputsOnce : inputs.Nodup
  apart : ∀ output ∈ outputs, output ∉ inputs

/-- So are the outputs behind the first one. -/
theorem ListedApart.later {first : Nat} {rest inputs : List Nat}
    (listed : ListedApart (first :: rest) inputs) : ListedApart rest inputs where
  outputsOnce := listed.outputsOnce.of_cons
  inputsOnce := listed.inputsOnce
  apart output member := listed.apart output (List.mem_cons_of_mem first member)

section Outputs

variable {relocation : Relocation} {output : Nat}

/-- A step writes no place but its output and fragment inputs. -/
theorem moveOutput_elsewhere {place : Nat} (different : place ≠ output)
    (apart : place ∉ fragmentInputs) :
    (moveOutput fragmentOutputs fragmentInputs relocation output).words[place]? =
      relocation.words[place]? := by
  rcases moveOutput_outcomes fragmentOutputs fragmentInputs relocation output with
    ⟨_, same⟩ | ⟨_, _, _, moved⟩
  · rw [same]
  · rw [moved.outside apart, if_neg different]

/-- A step writes none of the outputs behind its own. -/
theorem moveOutput_later {first : Nat} {rest : List Nat}
    (listed : ListedApart (first :: rest) fragmentInputs) (member : output ∈ rest) :
    (moveOutput fragmentOutputs fragmentInputs relocation first).words[output]? =
      relocation.words[output]? := by
  refine moveOutput_elsewhere ?_ (listed.later.apart output member)
  rintro rfl
  exact (List.nodup_cons.mp listed.outputsOnce).1 member

/-- Whether an output is in conflict depends on its own location and on those of the fragment
outputs. -/
theorem conflicting_congr {words after : List UInt32} (own : after[output]? = words[output]?)
    (rivals : ∀ rival ∈ fragmentOutputs, after[rival]? = words[rival]?) :
    conflicting after fragmentOutputs output = conflicting words fragmentOutputs output := by
  rw [Bool.eq_iff_iff, conflicting_iff, conflicting_iff]
  refine exists_congr fun location => ?_
  rw [Conflicts, Conflicts, own]
  refine and_congr_right fun _ => exists_congr fun rival => and_congr_right fun member => ?_
  rw [rivals rival member]

/-- Once its turn is over, an output is not written any more. -/
theorem kept_behind_first {first : Nat} {rest : List Nat}
    (listed : ListedApart (first :: rest) fragmentInputs) :
    (rest.foldl (moveOutput fragmentOutputs fragmentInputs) relocation).words[first]? =
      relocation.words[first]? := by
  apply kept_of_unmoved (listed.apart first List.mem_cons_self)
  intro moved
  exact (List.nodup_cons.mp listed.outputsOnce).1 (mem_of_mem_movedOutputs moved)

/-- Where no place is both a vertex output and a fragment output, the outputs that are moved
are those in conflict at first, in their order. -/
theorem movedOutputs_eq_filter {pending : List Nat} (listed : ListedApart pending fragmentInputs)
    (rivalsApart : ∀ rival ∈ fragmentOutputs, rival ∉ fragmentInputs)
    (unshared : ∀ output ∈ pending, output ∉ fragmentOutputs) :
    movedOutputs fragmentOutputs fragmentInputs relocation pending =
      pending.filter (conflicting relocation.words fragmentOutputs) := by
  induction pending generalizing relocation with
  | nil => rfl
  | cons first rest inductionHypothesis =>
    obtain ⟨firstUnshared, unsharedLater⟩ := List.forall_mem_cons.mp unshared
    have unwritten : ∀ rival ∈ fragmentOutputs,
        (moveOutput fragmentOutputs fragmentInputs relocation first).words[rival]? =
          relocation.words[rival]? := fun rival member =>
      moveOutput_elsewhere (fun same => firstUnshared (same ▸ member)) (rivalsApart rival member)
    have stillConflicting : rest.filter (conflicting
        (moveOutput fragmentOutputs fragmentInputs relocation first).words fragmentOutputs) =
          rest.filter (conflicting relocation.words fragmentOutputs) :=
      List.filter_congr fun _ member =>
        conflicting_congr (moveOutput_later listed member) unwritten
    rw [movedOutputs, inductionHypothesis listed.later unsharedLater, stillConflicting,
      List.filter_cons]

/-- The outputs that are moved hold the locations past the highest one, in their order. -/
theorem numbered_of_moved {pending : List Nat} (listed : ListedApart pending fragmentInputs)
    {rank : Nat} (ranked : (movedOutputs fragmentOutputs fragmentInputs relocation
      pending)[rank]? = some output) :
    (pending.foldl (moveOutput fragmentOutputs fragmentInputs) relocation).words[output]? =
      some (relocation.highestLocation + 1 + UInt32.ofNat rank) := by
  induction pending generalizing relocation rank with
  | nil => exact nomatch ranked
  | cons first rest inductionHypothesis =>
    rw [movedOutputs] at ranked
    rw [List.foldl_cons]
    cases conflict : conflicting relocation.words fragmentOutputs first with
    | false =>
      simp only [conflict, Bool.false_eq_true, ↓reduceIte,
        moveOutput_of_peace fragmentInputs conflict] at ranked ⊢
      exact inductionHypothesis listed.later ranked
    | true =>
      obtain ⟨next, written⟩ := moveOutput_of_conflict fragmentInputs conflict
      simp only [conflict, ↓reduceIte] at ranked
      cases rank with
      | zero =>
        obtain rfl : first = output := Option.some.inj ranked
        rw [kept_behind_first listed, written]
        exact congrArg some (UInt32.add_zero _).symm
      | succ rank =>
        have onward : UInt32.ofNat (rank + 1) = 1 + UInt32.ofNat rank := by
          rw [Nat.add_comm, UInt32.ofNat_add]
          rfl
        rw [inductionHypothesis listed.later ranked, next, onward, ← UInt32.add_assoc]

end Outputs

section Inputs

variable {words after : List UInt32} {output : Nat} {location fresh : UInt32}

/-- When a location moves, those inputs that held another one hold it still, and no others
have come to hold it. -/
theorem holding_other (apart : output ∉ fragmentInputs)
    (moved : Moved words after fragmentInputs output location fresh) {other : UInt32}
    (different : location ≠ other) (old : other ≠ fresh) :
    fragmentInputs.filter (holds after other) = fragmentInputs.filter (holds words other) := by
  apply List.filter_congr
  intro input member
  have notOutput : input ≠ output := fun same => apart (same ▸ member)
  rw [Bool.eq_iff_iff, holds, holds, beq_iff_eq, beq_iff_eq, moved input]
  split
  next found =>
    have held := (of_find?_holds (found.resolve_left notOutput)).2
    simp [held, different, old.symm]
  next => rfl

/-- When a location moves, the first input that held it does not hold it any more, and the
others still do. -/
theorem holding_moved (apart : output ∉ fragmentInputs) (once : fragmentInputs.Nodup)
    (moved : Moved words after fragmentInputs output location fresh) (old : location ≠ fresh) :
    fragmentInputs.filter (holds after location) =
      (fragmentInputs.filter (holds words location)).tail := by
  have remaining : fragmentInputs.filter (holds after location) =
      (fragmentInputs.filter (holds words location)).filter fun input =>
        fragmentInputs.find? (holds words location) != some input := by
    rw [List.filter_filter]
    apply List.filter_congr
    intro input member
    have notOutput : input ≠ output := fun same => apart (same ▸ member)
    rw [Bool.eq_iff_iff, Bool.and_eq_true, bne_iff_ne, holds, holds, beq_iff_eq, beq_iff_eq,
      moved input]
    by_cases found : fragmentInputs.find? (holds words location) = some input
    · simp [found, old.symm]
    · simp [found, notOutput]
  rw [remaining, ← List.head?_filter]
  have onceHolding := once.filter (holds words location)
  cases holding : fragmentInputs.filter (holds words location) with
  | nil => rfl
  | cons first rest =>
    rw [holding, List.nodup_cons] at onceHolding
    rw [List.filter_cons_of_neg (by simp), List.tail_cons, List.filter_eq_self]
    intro input member
    simp only [List.head?_cons, bne_iff_ne, ne_eq, Option.some.injEq]
    rintro rfl
    exact onceHolding.1 member

variable {relocation : Relocation} {pending : List Nat}

/-- A place keeps its word if no output holds the same, and it is no output itself. -/
theorem kept_of_unheld (listed : ListedApart pending fragmentInputs) {place : Nat}
    (unlisted : place ∉ pending)
    (unheld : ∀ output ∈ pending, relocation.words[output]? ≠ relocation.words[place]?) :
    (pending.foldl (moveOutput fragmentOutputs fragmentInputs) relocation).words[place]? =
      relocation.words[place]? := by
  induction pending generalizing relocation with
  | nil => rfl
  | cons first rest inductionHypothesis =>
    obtain ⟨firstUnheld, unheldLater⟩ := List.forall_mem_cons.mp unheld
    obtain ⟨notFirst, unlistedLater⟩ := not_or.mp (List.mem_cons.not.mp unlisted)
    have kept : (moveOutput fragmentOutputs fragmentInputs relocation first).words[place]? =
        relocation.words[place]? := by
      rcases moveOutput_cases fragmentOutputs fragmentInputs relocation first with
        ⟨_, same⟩ | ⟨location, ⟨held, _⟩, _, moved⟩
      · rw [same]
      · rw [moved place, if_neg]
        rintro (same | found)
        · exact notFirst same
        · exact firstUnheld (held.trans (of_find?_holds found).2.symm)
    rw [List.foldl_cons, inductionHypothesis listed.later unlistedLater, kept]
    intro other member
    rw [kept, moveOutput_later listed member]
    exact unheldLater other member

/-- Which of the outputs still to be moved hold a location does not depend on the step before
them. -/
theorem leavers_later (relocation : Relocation) {first : Nat} {rest : List Nat}
    (listed : ListedApart (first :: rest) fragmentInputs) (other : Relocation) :
    (movedOutputs fragmentOutputs fragmentInputs other rest).filter
        (holds (moveOutput fragmentOutputs fragmentInputs relocation first).words location) =
      (movedOutputs fragmentOutputs fragmentInputs other rest).filter
        (holds relocation.words location) := by
  apply List.filter_congr
  intro output moved
  rw [holds, holds, moveOutput_later listed (mem_of_mem_movedOutputs moved)]

/-- An output and the input that moves with it hold the same location in the end. It was not
in use, so no later output takes the input along. -/
theorem together_of_moved {first input : Nat} {rest : List Nat}
    (listed : ListedApart (first :: rest) fragmentInputs)
    (unused : ∀ output ∈ rest, relocation.words[output]? ≠ some fresh)
    (moved : Moved relocation.words
      (moveOutput fragmentOutputs fragmentInputs relocation first).words
      fragmentInputs first location fresh)
    (found : fragmentInputs.find? (holds relocation.words location) = some input) :
    (rest.foldl (moveOutput fragmentOutputs fragmentInputs)
        (moveOutput fragmentOutputs fragmentInputs relocation first)).words[input]? =
      (rest.foldl (moveOutput fragmentOutputs fragmentInputs)
        (moveOutput fragmentOutputs fragmentInputs relocation first)).words[first]? := by
  have output := moved first
  rw [if_pos (.inl rfl)] at output
  have follower := moved input
  rw [if_pos (.inr found)] at follower
  rw [kept_behind_first listed, output, ← follower]
  apply kept_of_unheld listed.later
  · exact fun member => listed.later.apart input member (of_find?_holds found).1
  · intro other member
    rw [follower, moveOutput_later listed member]
    exact unused other member

/-- Of the inputs and the outputs that hold one location at first, the first input goes with
the first output that is moved, and so on in order. An input without such an output keeps the
location. Induction on the outputs to be looked at: one that is moved takes the first of the
inputs that hold its location off their list. -/
theorem paired_run (listed : ListedApart pending fragmentInputs)
    (bounded : Bounded (pending ++ fragmentInputs) relocation)
    (room : relocation.highestLocation.toNat +
      (movedOutputs fragmentOutputs fragmentInputs relocation pending).length < UInt32.size)
    {rank input : Nat}
    (ranked : (fragmentInputs.filter (holds relocation.words location))[rank]? = some input) :
    (pending.foldl (moveOutput fragmentOutputs fragmentInputs) relocation).words[input]? =
      match ((movedOutputs fragmentOutputs fragmentInputs relocation pending).filter
          (holds relocation.words location))[rank]? with
      | some output =>
        (pending.foldl (moveOutput fragmentOutputs fragmentInputs) relocation).words[output]?
      | none => some location := by
  induction pending generalizing relocation rank with
  | nil =>
    obtain ⟨_, held⟩ := List.mem_filter.mp (List.mem_of_getElem? ranked)
    exact beq_iff_eq.mp held
  | cons first rest inductionHypothesis =>
    rw [List.foldl_cons]
    rcases moveOutput_cases fragmentOutputs fragmentInputs relocation first with
      ⟨free, same⟩ | ⟨old, shared, _, moved⟩
    · have peace : conflicting relocation.words fragmentOutputs first = false := by
        rw [Bool.eq_false_iff]
        intro conflict
        obtain ⟨location, shared⟩ := conflicting_iff.mp conflict
        exact free location shared
      simp only [movedOutputs, peace, Bool.false_eq_true, ↓reduceIte, same] at room ⊢
      exact inductionHypothesis listed.later
        (fun place member => bounded place (List.mem_cons_of_mem first member)) room ranked
    · have conflict := conflicting_iff.mpr ⟨old, shared⟩
      obtain ⟨grown, _, roomLater⟩ := room_of_conflict conflict room
      have oneMore : relocation.highestLocation.toNat + 1 < UInt32.size := by omega
      have boundedLater : Bounded (rest ++ fragmentInputs)
          (moveOutput fragmentOutputs fragmentInputs relocation first) := fun place member =>
        (bounded.step oneMore fragmentOutputs fragmentInputs first).1 place
          (List.mem_cons_of_mem first member)
      obtain ⟨isInput, held⟩ := List.mem_filter.mp (List.mem_of_getElem? ranked)
      have notFresh : location ≠ relocation.highestLocation + 1 := by
        rintro rfl
        exact bounded.unused oneMore (List.mem_append_right _ isInput) (beq_iff_eq.mp held)
      have firstApart := listed.apart first List.mem_cons_self
      simp only [movedOutputs, conflict, ↓reduceIte, List.filter_cons,
        ← leavers_later relocation listed]
      by_cases leaves : old = location
      -- The output takes the first of the inputs along; a later input is one rank nearer then.
      · subst leaves
        rw [if_pos (show holds relocation.words old first = true from beq_iff_eq.mpr shared.1)]
        cases rank with
        | zero =>
          apply together_of_moved listed _ moved
          · rwa [← List.head?_filter, List.head?_eq_getElem?]
          · exact fun output member => bounded.unused oneMore
              (List.mem_append_left _ (List.mem_cons_of_mem first member))
        | succ rank =>
          rw [List.getElem?_cons_succ]
          apply inductionHypothesis listed.later boundedLater roomLater
          rwa [holding_moved firstApart listed.inputsOnce moved notFresh, List.getElem?_tail]
      · have elsewhere : ¬ holds relocation.words location first = true := by
          rw [holds, beq_iff_eq, shared.1, Option.some.injEq]
          exact leaves
        rw [if_neg elsewhere]
        apply inductionHypothesis listed.later boundedLater roomLater
        rwa [holding_other firstApart moved leaves notFresh]

end Inputs

/-- The outputs that share a location with a fragment output before any is moved. -/
def contested (words : List UInt32) (fragmentOutputs outputs : List Nat) : List Nat :=
  outputs.filter (conflicting words fragmentOutputs)

/-- The locations after a separation, in terms of those before it. -/
structure Renumbered (words after : List UInt32) (outputs fragmentOutputs inputs : List Nat)
    (highest : UInt32) : Prop where
  /-- Contested outputs take the locations past the highest one, in order. -/
  numbered : ∀ (rank output : Nat), (contested words fragmentOutputs outputs)[rank]? = some output →
    after[output]?.map UInt32.toNat = some ((highest.toNat + 1 + rank) % UInt32.size)
  /-- Other outputs keep their locations. -/
  outputs_kept : ∀ output ∈ outputs, output ∉ contested words fragmentOutputs outputs →
    after[output]? = words[output]?
  /-- Fragment outputs keep theirs. -/
  rivals_kept : ∀ rival ∈ fragmentOutputs, after[rival]? = words[rival]?
  /-- Inputs go with the contested outputs that held the same location, both taken in order. -/
  inputs_follow : highest.toNat + (contested words fragmentOutputs outputs).length < UInt32.size →
    ∀ (location : UInt32) (rank input : Nat),
      (inputs.filter (holds words location))[rank]? = some input →
      (∀ output, ((contested words fragmentOutputs outputs).filter
          (holds words location))[rank]? = some output → after[input]? = after[output]?) ∧
        (((contested words fragmentOutputs outputs).filter (holds words location))[rank]? = none →
          after[input]? = some location)

/-- A run renumbers the outputs and inputs of stages that share no output. -/
theorem renumbered_run {words : List UInt32} {highest : UInt32} {outputs : List Nat}
    (listed : ListedApart outputs fragmentInputs)
    (rivalsApart : ∀ rival ∈ fragmentOutputs, rival ∉ fragmentInputs)
    (unshared : ∀ output ∈ outputs, output ∉ fragmentOutputs)
    (bounded : Bounded (outputs ++ fragmentInputs) ⟨words, highest⟩) :
    Renumbered words (outputs.foldl (moveOutput fragmentOutputs fragmentInputs)
      ⟨words, highest⟩).words outputs fragmentOutputs fragmentInputs highest := by
  have moved : movedOutputs fragmentOutputs fragmentInputs ⟨words, highest⟩ outputs =
      contested words fragmentOutputs outputs :=
    movedOutputs_eq_filter listed rivalsApart unshared
  refine ⟨?_, ?_, ?_, ?_⟩
  · intro rank output ranked
    rw [numbered_of_moved listed (moved ▸ ranked)]
    simp [UInt32.size]
  · intro output member uncontested
    exact kept_of_unmoved (listed.apart output member) (moved ▸ uncontested)
  · intro rival member
    apply kept_of_unmoved (rivalsApart rival member)
    exact fun contestedRival => unshared rival (mem_of_mem_movedOutputs contestedRival) member
  · intro room location rank input ranked
    have paired := paired_run listed bounded (moved ▸ room) ranked
    rw [moved] at paired
    constructor
    · intro output leaves
      simpa only [leaves] using paired
    · intro none
      simpa only [none] using paired

end RenderAssets.Spirv.Relocation

namespace RenderAssets.Spirv

/-- No id is listed twice among those that are located, since only the first slot of an id is
informed. -/
theorem Slot.nodup_locatedIds {first : UInt32 → Slot} (named : ∀ id, (first id).id = id)
    (storageClass : UInt32) (seen ids : List UInt32) :
    (locatedIds storageClass (settled first seen ids)).Nodup ∧
      ∀ id ∈ locatedIds storageClass (settled first seen ids), id ∉ seen := by
  induction ids generalizing seen with
  | nil => exact ⟨List.nodup_nil, fun _ none => absurd none List.not_mem_nil⟩
  | cons id rest inductionHypothesis =>
    obtain ⟨once, unseen⟩ := inductionHypothesis (id :: seen)
    have later : ∀ other ∈ locatedIds storageClass (settled first (id :: seen) rest),
        other ≠ id ∧ other ∉ seen := fun other member =>
      not_or.mp (List.mem_cons.not.mp (unseen other member))
    rw [settled, locatedIds, List.filterMap_cons]
    split
    next => exact ⟨once, fun other member => (later other member).2⟩
    next other head =>
      have informed : id ∉ seen ∧ other = id := by
        by_cases repeated : id ∈ seen
        · simp [repeated] at head
        · simp only [repeated, ↓reduceIte, Option.ite_none_right_eq_some, Option.map_eq_some_iff,
            named] at head
          obtain ⟨_, _, _, same⟩ := head
          exact ⟨repeated, same.symm⟩
      obtain ⟨first, rfl⟩ := informed
      exact ⟨List.nodup_cons.mpr ⟨fun again => (later other again).1 rfl, once⟩,
        List.forall_mem_cons.mpr ⟨first, fun other member => (later other member).2⟩⟩

section Module

variable {words : List UInt32}

/-- No place is listed twice among those of a storage class. -/
theorem nodup_located (storageClass : UInt32) (ids : List UInt32) :
    (Slot.located storageClass (slotsOf words ids)).Nodup := by
  rw [located_eq_places]
  apply List.Nodup.filterMap _ (Slot.nodup_locatedIds (fun _ => rfl) storageClass [] ids).1
  exact placeOf?_apart words

/-- The vertex outputs and the fragment inputs of a module are listed apart. -/
theorem listedApart_of_stages (vertexIds fragmentIds : List UInt32) :
    Relocation.ListedApart (Slot.located outputClass (slotsOf words vertexIds))
      (Slot.located inputClass (slotsOf words fragmentIds)) where
  outputsOnce := nodup_located outputClass vertexIds
  inputsOnce := nodup_located inputClass fragmentIds
  apart _ member := located_apart (by decide) member

end Module

/-- Where separation is applied and no id is a located output of both stages, the locations
afterwards can be told from those before. The vertex outputs that share one with a fragment
output are numbered from the one past the highest, in the order of the interface and modulo
the number of words; all other vertex outputs and all fragment outputs keep theirs. With room
for that many fresh locations, the fragment inputs of each old location go with the vertex
outputs that left it, one by one in the order of the interfaces, and those beyond keep it. -/
theorem separation_renumbers (words : List UInt32)
    (applied : (separateOutputs words).applied = true) :
    ∃ interfaces, StageInterfaces.scan? words = some interfaces ∧
      ((∀ output ∈ interfaces.vertex, ∀ rival ∈ interfaces.fragment, ∀ place rivalPlace,
          output.LocatedIn outputClass place → rival.LocatedIn outputClass rivalPlace →
            output.id ≠ rival.id) →
        Relocation.Renumbered words (separateOutputs words).words
          (Slot.located outputClass interfaces.vertex)
          (Slot.located outputClass interfaces.fragment)
          (Slot.located inputClass interfaces.fragment) interfaces.highestLocation) := by
  obtain ⟨scanned, separated⟩ := of_applied applied
  refine ⟨.ofListed words, scanned, ?_⟩
  intro unshared
  rw [separated, Relocation.ofInterfaces]
  apply Relocation.renumbered_run (listedApart_of_stages _ _)
  · exact fun rival member => located_apart (by decide) member
  · intro place member rivalMember
    obtain ⟨slot, belongs, located⟩ := Slot.mem_located_iff.mp member
    obtain ⟨rival, rivalBelongs, rivalLocated⟩ := Slot.mem_located_iff.mp rivalMember
    exact unshared slot belongs rival rivalBelongs place place located rivalLocated
      (id_eq_of_located belongs rivalBelongs located.2 rivalLocated.2)
  · exact bounded_of_stages inputClass

/-- The vertex outputs 10, 11 and 12 share location zero, 13 has location three; the fragment
output 20 has location zero too. The fragment inputs 21 and 22 read location zero, 23 reads
location three. -/
def rankedModule : List UInt32 :=
  linkedModule [13, 10, 11, 12] [21, 22, 23, 20]
    [(10, 0), (11, 0), (12, 0), (13, 3), (20, 0), (21, 0), (22, 0), (23, 3)]
    [(10, outputClass), (11, outputClass), (12, outputClass), (13, outputClass),
      (20, outputClass), (21, inputClass), (22, inputClass), (23, inputClass)]

/-- The outputs 10, 11 and 12 are numbered from four. The inputs 21 and 22 go with the first two
of them, and nothing else changes. -/
theorem rankedModule_renumbered :
    (separateOutputs rankedModule).applied = true ∧
      [24, 28, 32].map (fun place : Nat => (separateOutputs rankedModule).words[place]?.map
        UInt32.toNat) = [some 4, some 5, some 6] ∧
      [36, 40].map (fun place : Nat => (separateOutputs rankedModule).words[place]?) =
        [some 3, some 0] ∧
      (separateOutputs rankedModule).words[44]? = (separateOutputs rankedModule).words[24]? ∧
      (separateOutputs rankedModule).words[48]? = (separateOutputs rankedModule).words[28]? ∧
      (separateOutputs rankedModule).words[52]? = some 3 := by
  have applied : (separateOutputs rankedModule).applied = true :=
    applied_iff_scannable.1.mpr (by decide)
  obtain ⟨interfaces, scanned, renumbers⟩ := separation_renumbers rankedModule applied
  obtain rfl := ((scan?_eq_some_iff interfaces).mp scanned).2
  have disjoint : ∀ output ∈ (StageInterfaces.ofListed rankedModule).vertex,
      ∀ rival ∈ (StageInterfaces.ofListed rankedModule).fragment, output.id ≠ rival.id := by
    decide
  have renumbered := renumbers fun output member rival rivalMember _ _ _ _ =>
    disjoint output member rival rivalMember
  have follow := renumbered.inputs_follow (by decide)
  refine ⟨applied, ?_, ?_, ?_, ?_, ?_⟩
  · simp only [List.map_cons, List.map_nil, renumbered.numbered 0 24 (by decide),
      renumbered.numbered 1 28 (by decide), renumbered.numbered 2 32 (by decide)]
    decide
  · simp only [List.map_cons, List.map_nil, renumbered.outputs_kept 36 (by decide) (by decide),
      renumbered.rivals_kept 40 (by decide)]
    decide
  · exact (follow 0 0 44 (by decide)).1 24 (by decide)
  · exact (follow 0 1 48 (by decide)).1 28 (by decide)
  · exact (follow 3 0 52 (by decide)).2 (by decide)

end RenderAssets.Spirv
