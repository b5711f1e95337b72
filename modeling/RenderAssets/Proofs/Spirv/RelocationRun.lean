import RenderAssets.Spirv.Relocation

/-!
# Moving outputs, one step and a whole run

A step looks at one vertex output. If no fragment output holds its location, the
step does nothing. Otherwise one fresh location, next to the highest so far, is
written to the output and to the first fragment input that holds the old location.

While the fresh locations do not wrap around, they lie above every location of the
interfaces. Two things follow for a run. The outputs that have been looked at no
longer share a location with a fragment output, except with themselves. And where
the locations of outputs and of inputs are distinct, a step renames one location to
another that is not in use, so that two places agree after the run exactly when
they agreed before.

What a run writes needs no assumption: at most two places for each output, each of
them a vertex output or a fragment input.
-/

namespace RenderAssets.Spirv.Relocation

variable {fragmentOutputs fragmentInputs : List Nat}

/-- A vertex output and some fragment output hold the same location. -/
def Conflicts (words : List UInt32) (fragmentOutputs : List Nat) (vertexOutput : Nat)
    (location : UInt32) : Prop :=
  words[vertexOutput]? = some location ∧ ∃ rival ∈ fragmentOutputs, words[rival]? = some location

/-- The words after a location has moved: the vertex output and the first fragment
input that held it hold the fresh one, all others hold what they did. -/
def Moved (words after : List UInt32) (fragmentInputs : List Nat) (vertexOutput : Nat)
    (location fresh : UInt32) : Prop :=
  ∀ place, after[place]? =
    if place = vertexOutput ∨ fragmentInputs.find? (holds words location) = some place
    then some fresh else words[place]?

/-- The input that moves with a location is one of the inputs and holds it. -/
theorem of_find?_holds {words : List UInt32} {location : UInt32} {place : Nat}
    (found : fragmentInputs.find? (holds words location) = some place) :
    place ∈ fragmentInputs ∧ words[place]? = some location := by
  have held : holds words location place = true := List.find?_some found
  exact ⟨List.mem_of_find?_eq_some found, beq_iff_eq.mp held⟩

/-- Moving the first place that holds a location writes that place and no other. -/
theorem getElem?_moveFirst (words : List UInt32) (offsets : List Nat) (location fresh : UInt32)
    (place : Nat) :
    (moveFirst words offsets location fresh)[place]? =
      if offsets.find? (holds words location) = some place then some fresh else words[place]? := by
  rw [moveFirst]
  cases found : offsets.find? (holds words location) with
  | none => rfl
  | some first =>
    obtain ⟨inside, _⟩ := List.getElem?_eq_some_iff.mp (of_find?_holds found).2
    by_cases same : first = place
    · subst same
      simp only [List.getElem?_set_self inside, ↓reduceIte]
    · simp only [List.getElem?_set_ne same, Option.some.injEq, same, ↓reduceIte]

/-- Moving the first place that holds a location keeps the number of words. -/
theorem length_moveFirst (words : List UInt32) (offsets : List Nat) (location fresh : UInt32) :
    (moveFirst words offsets location fresh).length = words.length := by
  rw [moveFirst]
  cases offsets.find? (holds words location) with
  | none => rfl
  | some first => exact List.length_set

/-- A step keeps the number of words. -/
theorem length_moveOutput (fragmentOutputs fragmentInputs : List Nat) (relocation : Relocation)
    (vertexOutput : Nat) :
    (moveOutput fragmentOutputs fragmentInputs relocation vertexOutput).words.length =
      relocation.words.length := by
  rw [moveOutput]
  cases relocation.words[vertexOutput]? with
  | none => rfl
  | some location =>
    by_cases shared : fragmentOutputs.any (holds relocation.words location) = true
    · simp only [shared, ↓reduceIte, List.length_set, length_moveFirst]
    · simp only [shared, Bool.false_eq_true, ↓reduceIte]

/-- A step either finds no conflict and does nothing, or moves the location of the
output to the one past the highest. -/
theorem moveOutput_cases (fragmentOutputs fragmentInputs : List Nat) (relocation : Relocation)
    (vertexOutput : Nat) :
    ((∀ location, ¬ Conflicts relocation.words fragmentOutputs vertexOutput location) ∧
        moveOutput fragmentOutputs fragmentInputs relocation vertexOutput = relocation) ∨
      ∃ location, Conflicts relocation.words fragmentOutputs vertexOutput location ∧
        (moveOutput fragmentOutputs fragmentInputs relocation vertexOutput).highestLocation =
          relocation.highestLocation + 1 ∧
        Moved relocation.words
          (moveOutput fragmentOutputs fragmentInputs relocation vertexOutput).words
          fragmentInputs vertexOutput location (relocation.highestLocation + 1) := by
  rw [moveOutput]
  cases own : relocation.words[vertexOutput]? with
  | none =>
    left
    refine ⟨?_, rfl⟩
    rintro location ⟨held, _⟩
    rw [own] at held
    exact absurd held (Option.some_ne_none _).symm
  | some location =>
    by_cases shared : fragmentOutputs.any (holds relocation.words location) = true
    · right
      simp only [shared, ↓reduceIte, true_and]
      obtain ⟨rival, member, held⟩ := List.any_eq_true.mp shared
      refine ⟨location, ⟨own, rival, member, beq_iff_eq.mp held⟩, ?_⟩
      intro place
      obtain ⟨inside, _⟩ := List.getElem?_eq_some_iff.mp own
      by_cases same : vertexOutput = place
      · subst same
        have present : vertexOutput < (moveFirst relocation.words fragmentInputs location
            (relocation.highestLocation + 1)).length := by
          simpa only [length_moveFirst] using inside
        simp only [List.getElem?_set_self present, true_or, ↓reduceIte]
      · simp only [List.getElem?_set_ne same, getElem?_moveFirst, Ne.symm same, false_or]
    · left
      simp only [shared, Bool.false_eq_true, ↓reduceIte, and_true]
      rintro other ⟨held, rival, member, rivalHeld⟩
      obtain rfl := Option.some.inj (own.symm.trans held)
      exact shared (List.any_eq_true.mpr ⟨rival, member, beq_iff_eq.mpr rivalHeld⟩)

/-- A location that moves is read off the fragment inputs only where it moved. -/
theorem Moved.outside {words after : List UInt32} {vertexOutput : Nat} {location fresh : UInt32}
    (moved : Moved words after fragmentInputs vertexOutput location fresh) {place : Nat}
    (apart : place ∉ fragmentInputs) :
    after[place]? = if place = vertexOutput then some fresh else words[place]? := by
  have unfollowed : fragmentInputs.find? (holds words location) ≠ some place :=
    fun found => apart (of_find?_holds found).1
  simp only [moved place, unfollowed, or_false]

/-- The next location is above all that are at most the highest, short of the end. -/
theorem lt_next {highest location : UInt32} (room : highest.toNat + 1 < UInt32.size)
    (bounded : location ≤ highest) : location < highest + 1 := by
  rw [UInt32.le_iff_toNat_le] at bounded
  rw [UInt32.lt_iff_toNat_lt, UInt32.toNat_add]
  simp only [UInt32.toNat_one, UInt32.size] at room ⊢
  omega

/-- Each of some places holds a location no higher than the highest so far. -/
def Bounded (places : List Nat) (relocation : Relocation) : Prop :=
  ∀ place ∈ places, ∃ location, relocation.words[place]? = some location ∧
    location ≤ relocation.highestLocation

/-- No place holds the location that comes next. -/
theorem Bounded.unused {places : List Nat} {relocation : Relocation}
    (bounded : Bounded places relocation)
    (room : relocation.highestLocation.toNat + 1 < UInt32.size) {place : Nat}
    (member : place ∈ places) :
    relocation.words[place]? ≠ some (relocation.highestLocation + 1) := by
  obtain ⟨location, held, below⟩ := bounded place member
  intro fresh
  obtain rfl := Option.some.inj (held.symm.trans fresh)
  exact absurd (lt_next room below) (UInt32.lt_irrefl _)

/-- A step keeps places bounded, and uses up at most one location. -/
theorem Bounded.step {places : List Nat} {relocation : Relocation}
    (bounded : Bounded places relocation)
    (room : relocation.highestLocation.toNat + 1 < UInt32.size)
    (fragmentOutputs fragmentInputs : List Nat) (vertexOutput : Nat) :
    Bounded places (moveOutput fragmentOutputs fragmentInputs relocation vertexOutput) ∧
      (moveOutput fragmentOutputs fragmentInputs relocation vertexOutput).highestLocation.toNat ≤
        relocation.highestLocation.toNat + 1 := by
  rcases moveOutput_cases fragmentOutputs fragmentInputs relocation vertexOutput with
    ⟨_, same⟩ | ⟨location, _, next, moved⟩
  · rw [same]
    exact ⟨bounded, Nat.le_succ _⟩
  · constructor
    · intro place member
      obtain ⟨held, present, below⟩ := bounded place member
      rw [moved place, next]
      split
      · exact ⟨_, rfl, UInt32.le_refl _⟩
      · exact ⟨held, present, UInt32.le_of_lt (lt_next room below)⟩
    · rw [next, UInt32.toNat_add]
      exact Nat.mod_le _ _

/-- A vertex output agrees with a fragment output only where they are one place. -/
def Separated (words : List UInt32) (vertexOutputs fragmentOutputs : List Nat) : Prop :=
  ∀ output ∈ vertexOutputs, ∀ rival ∈ fragmentOutputs, words[output]? = words[rival]? →
    output = rival

/-- A step separates its output from the fragment outputs, and those separated
before stay so. The fresh location is held by nothing else that is bounded, and a
fragment output changes only where it is the vertex output itself. -/
theorem separated_step {relocation : Relocation} {done : List Nat} {vertexOutput : Nat}
    (bounded : Bounded (done ++ fragmentOutputs) relocation)
    (room : relocation.highestLocation.toNat + 1 < UInt32.size)
    (outputsApart : ∀ output ∈ done ++ [vertexOutput], output ∉ fragmentInputs)
    (rivalsApart : ∀ rival ∈ fragmentOutputs, rival ∉ fragmentInputs)
    (separated : Separated relocation.words done fragmentOutputs) :
    Separated (moveOutput fragmentOutputs fragmentInputs relocation vertexOutput).words
      (done ++ [vertexOutput]) fragmentOutputs := by
  intro output member rival rivalMember agree
  rcases moveOutput_cases fragmentOutputs fragmentInputs relocation vertexOutput with
    ⟨free, same⟩ | ⟨location, _, _, moved⟩
  · rw [same] at agree
    rcases List.mem_append.mp member with earlier | last
    · exact separated output earlier rival rivalMember agree
    · obtain rfl := List.mem_singleton.mp last
      obtain ⟨held, present, _⟩ := bounded rival (List.mem_append_right done rivalMember)
      exact absurd ⟨agree.trans present, rival, rivalMember, present⟩ (free held)
  · rw [moved.outside (outputsApart output member), moved.outside (rivalsApart rival rivalMember)]
      at agree
    by_cases outputMoves : output = vertexOutput
    · by_cases rivalMoves : rival = vertexOutput
      · exact outputMoves.trans rivalMoves.symm
      · simp only [outputMoves, rivalMoves, ↓reduceIte] at agree
        exact absurd agree.symm (bounded.unused room (List.mem_append_right done rivalMember))
    · have earlier : output ∈ done := by
        rcases List.mem_append.mp member with earlier | last
        · exact earlier
        · exact absurd (List.mem_singleton.mp last) outputMoves
      by_cases rivalMoves : rival = vertexOutput
      · simp only [outputMoves, rivalMoves, ↓reduceIte] at agree
        exact absurd agree (bounded.unused room (List.mem_append_left fragmentOutputs earlier))
      · simp only [outputMoves, rivalMoves, ↓reduceIte] at agree
        exact separated output earlier rival rivalMember agree

/-- A run separates every vertex output from the fragment outputs. Induction on the
outputs still to be looked at, with those done before separated already. -/
theorem separated_run {relocation : Relocation} {done pending : List Nat}
    (bounded : Bounded (done ++ pending ++ fragmentOutputs) relocation)
    (room : relocation.highestLocation.toNat + pending.length < UInt32.size)
    (outputsApart : ∀ output ∈ done ++ pending, output ∉ fragmentInputs)
    (rivalsApart : ∀ rival ∈ fragmentOutputs, rival ∉ fragmentInputs)
    (separated : Separated relocation.words done fragmentOutputs) :
    Separated (pending.foldl (moveOutput fragmentOutputs fragmentInputs) relocation).words
      (done ++ pending) fragmentOutputs := by
  induction pending generalizing relocation done with
  | nil => simpa only [List.append_nil, List.foldl_nil] using separated
  | cons vertexOutput rest inductionHypothesis =>
    have regroup : done ++ vertexOutput :: rest = (done ++ [vertexOutput]) ++ rest := by simp
    simp only [List.length_cons] at room
    rw [regroup] at bounded outputsApart ⊢
    rw [List.foldl_cons]
    obtain ⟨boundedLater, growth⟩ :=
      bounded.step (by omega) fragmentOutputs fragmentInputs vertexOutput
    refine inductionHypothesis boundedLater (by omega) outputsApart ?_
    refine separated_step ?_ (by omega) ?_ rivalsApart separated
    · intro place member
      apply bounded
      rcases List.mem_append.mp member with earlier | rival
      · exact List.mem_append_left _ (List.mem_append_left _ (List.mem_append_left _ earlier))
      · exact List.mem_append_right _ rival
    · intro output member
      exact outputsApart output (List.mem_append_left rest member)

/-- Places hold the same location only where they are one place. -/
def Distinct (words : List UInt32) (places : List Nat) : Prop :=
  ∀ place ∈ places, ∀ other ∈ places, words[place]? = words[other]? → place = other

/-- Two sets of words agree on which of some places share a location. -/
def SameSharing (words after : List UInt32) (places : List Nat) : Prop :=
  ∀ place ∈ places, ∀ other ∈ places,
    after[place]? = after[other]? ↔ words[place]? = words[other]?

/-- Where vertex outputs and fragment inputs hold distinct locations each, a step
renames one location to the fresh one in both. The output is the only one that holds
the old location, and the input that moves with it is the only such input. -/
theorem renamed_of_moved {words after : List UInt32} {vertexOutputs : List Nat}
    {vertexOutput : Nat} {location fresh : UInt32} (member : vertexOutput ∈ vertexOutputs)
    (held : words[vertexOutput]? = some location)
    (outputs : Distinct words vertexOutputs) (inputs : Distinct words fragmentInputs)
    (apart : ∀ output ∈ vertexOutputs, output ∉ fragmentInputs)
    (moved : Moved words after fragmentInputs vertexOutput location fresh)
    {place : Nat} (known : place ∈ vertexOutputs ++ fragmentInputs) :
    after[place]? = if words[place]? = some location then some fresh else words[place]? := by
  rcases List.mem_append.mp known with output | input
  · have own : place = vertexOutput ↔ words[place]? = some location := by
      constructor
      · rintro rfl
        exact held
      · intro holding
        exact outputs place output vertexOutput member (holding.trans held.symm)
    simp only [moved.outside (apart place output), own]
  · have distinct : place ≠ vertexOutput := by
      rintro rfl
      exact apart place member input
    have follows : fragmentInputs.find? (holds words location) = some place ↔
        words[place]? = some location := by
      constructor
      · exact fun found => (of_find?_holds found).2
      · intro holding
        have present : (fragmentInputs.find? (holds words location)).isSome = true :=
          List.find?_isSome.mpr ⟨place, input, beq_iff_eq.mpr holding⟩
        obtain ⟨first, found⟩ := Option.isSome_iff_exists.mp present
        obtain ⟨firstInput, firstHolds⟩ := of_find?_holds found
        obtain rfl := inputs first firstInput place input (firstHolds.trans holding.symm)
        exact found
    simp only [moved place, distinct, false_or, follows]

/-- A step keeps which vertex outputs and fragment inputs share a location, where the
outputs and the inputs are distinct each: renaming a location to an unused one is
injective. -/
theorem sameSharing_step (fragmentOutputs : List Nat) {relocation : Relocation}
    {vertexOutputs : List Nat} {vertexOutput : Nat}
    (bounded : Bounded (vertexOutputs ++ fragmentInputs) relocation)
    (room : relocation.highestLocation.toNat + 1 < UInt32.size)
    (member : vertexOutput ∈ vertexOutputs)
    (apart : ∀ output ∈ vertexOutputs, output ∉ fragmentInputs)
    (outputs : Distinct relocation.words vertexOutputs)
    (inputs : Distinct relocation.words fragmentInputs) :
    SameSharing relocation.words
      (moveOutput fragmentOutputs fragmentInputs relocation vertexOutput).words
      (vertexOutputs ++ fragmentInputs) := by
  intro place known other otherKnown
  rcases moveOutput_cases fragmentOutputs fragmentInputs relocation vertexOutput with
    ⟨_, same⟩ | ⟨location, ⟨held, _⟩, _, moved⟩
  · rw [same]
  · rw [renamed_of_moved member held outputs inputs apart moved known,
      renamed_of_moved member held outputs inputs apart moved otherKnown]
    have unused := bounded.unused room known
    have otherUnused := bounded.unused room otherKnown
    by_cases old : relocation.words[place]? = some location
    · by_cases otherOld : relocation.words[other]? = some location
      · simp only [old, otherOld]
      · simp only [old, otherOld, ↓reduceIte, Ne.symm otherUnused, Ne.symm otherOld]
    · by_cases otherOld : relocation.words[other]? = some location
      · simp only [old, otherOld, ↓reduceIte, unused]
      · simp only [old, otherOld, ↓reduceIte]

/-- A run keeps which vertex outputs and fragment inputs share a location. Induction
on the outputs to be looked at; that a step keeps the sharing keeps the outputs and
the inputs distinct as well. -/
theorem sameSharing_run {relocation : Relocation} {vertexOutputs pending : List Nat}
    (bounded : Bounded (vertexOutputs ++ fragmentInputs) relocation)
    (room : relocation.highestLocation.toNat + pending.length < UInt32.size)
    (members : ∀ output ∈ pending, output ∈ vertexOutputs)
    (apart : ∀ output ∈ vertexOutputs, output ∉ fragmentInputs)
    (outputs : Distinct relocation.words vertexOutputs)
    (inputs : Distinct relocation.words fragmentInputs) :
    SameSharing relocation.words
      (pending.foldl (moveOutput fragmentOutputs fragmentInputs) relocation).words
      (vertexOutputs ++ fragmentInputs) := by
  induction pending generalizing relocation with
  | nil =>
    intro place _ other _
    rfl
  | cons vertexOutput rest inductionHypothesis =>
    simp only [List.length_cons] at room
    have kept := sameSharing_step fragmentOutputs bounded (by omega)
      (members vertexOutput List.mem_cons_self) apart outputs inputs
    obtain ⟨boundedLater, growth⟩ :=
      bounded.step (by omega) fragmentOutputs fragmentInputs vertexOutput
    have outputsLater : Distinct
        (moveOutput fragmentOutputs fragmentInputs relocation vertexOutput).words
        vertexOutputs := by
      intro place known other otherKnown agree
      exact outputs place known other otherKnown ((kept place (List.mem_append_left _ known) other
        (List.mem_append_left _ otherKnown)).mp agree)
    have inputsLater : Distinct
        (moveOutput fragmentOutputs fragmentInputs relocation vertexOutput).words
        fragmentInputs := by
      intro place known other otherKnown agree
      exact inputs place known other otherKnown ((kept place (List.mem_append_right _ known) other
        (List.mem_append_right _ otherKnown)).mp agree)
    have onward := inductionHypothesis boundedLater (by omega)
      (fun output later => members output (List.mem_cons_of_mem vertexOutput later))
      outputsLater inputsLater
    intro place known other otherKnown
    exact (onward place known other otherKnown).trans (kept place known other otherKnown)

/-- A run keeps the number of words. -/
theorem length_run (relocation : Relocation) (pending : List Nat) :
    (pending.foldl (moveOutput fragmentOutputs fragmentInputs) relocation).words.length =
      relocation.words.length := by
  induction pending generalizing relocation with
  | nil => rfl
  | cons vertexOutput rest inductionHypothesis =>
    rw [List.foldl_cons, inductionHypothesis, length_moveOutput]

/-- What a run writes: at most two places for each output looked at, each of them
such an output or a fragment input. -/
theorem run_touches (relocation : Relocation) (pending : List Nat) :
    ∃ touched : List Nat, touched.length ≤ 2 * pending.length ∧
      (∀ place ∈ touched, place ∈ pending ∨ place ∈ fragmentInputs) ∧
      ∀ place, place ∉ touched →
        (pending.foldl (moveOutput fragmentOutputs fragmentInputs) relocation).words[place]? =
          relocation.words[place]? := by
  induction pending generalizing relocation with
  | nil => exact ⟨[], Nat.le_refl 0, fun _ none => absurd none List.not_mem_nil, fun _ _ => rfl⟩
  | cons vertexOutput rest inductionHypothesis =>
    obtain ⟨later, few, known, unwritten⟩ := inductionHypothesis
      (moveOutput fragmentOutputs fragmentInputs relocation vertexOutput)
    rcases moveOutput_cases fragmentOutputs fragmentInputs relocation vertexOutput with
      ⟨_, same⟩ | ⟨location, _, _, moved⟩
    · refine ⟨later, ?_, ?_, ?_⟩
      · rw [List.length_cons]
        omega
      · intro place member
        exact (known place member).imp_left (List.mem_cons_of_mem vertexOutput)
      · intro place absent
        rw [List.foldl_cons, unwritten place absent, same]
    · have single : (fragmentInputs.find? (holds relocation.words location)).toList.length ≤ 1 := by
        cases fragmentInputs.find? (holds relocation.words location) <;> simp
      refine ⟨vertexOutput :: (fragmentInputs.find? (holds relocation.words location)).toList ++
        later, ?_, ?_, ?_⟩
      · simp only [List.cons_append, List.length_cons, List.length_append]
        omega
      · intro place member
        rcases List.mem_append.mp member with now | after
        · rcases List.mem_cons.mp now with rfl | follows
          · exact Or.inl List.mem_cons_self
          · exact Or.inr (of_find?_holds (Option.mem_toList.mp follows)).1
        · exact (known place after).imp_left (List.mem_cons_of_mem vertexOutput)
      · intro place absent
        simp only [List.cons_append, List.mem_cons, List.mem_append, Option.mem_toList, not_or]
          at absent
        obtain ⟨different, unfollowed, unwrittenLater⟩ := absent
        rw [List.foldl_cons, unwritten place unwrittenLater, moved place, if_neg]
        rintro (same | found)
        · exact different same
        · exact unfollowed found

section Interfaces

variable {interfaces : StageInterfaces} {words : List UInt32}

/-- Relocating the located vertex outputs separates them from the fragment outputs. -/
theorem separated_ofInterfaces
    (bounded : Bounded (Slot.located outputClass interfaces.vertex ++
      Slot.located outputClass interfaces.fragment) ⟨words, interfaces.highestLocation⟩)
    (room : interfaces.highestLocation.toNat +
      (Slot.located outputClass interfaces.vertex).length < UInt32.size)
    (outputsApart : ∀ output ∈ Slot.located outputClass interfaces.vertex,
      output ∉ Slot.located inputClass interfaces.fragment)
    (rivalsApart : ∀ rival ∈ Slot.located outputClass interfaces.fragment,
      rival ∉ Slot.located inputClass interfaces.fragment) :
    Separated (ofInterfaces interfaces words).words
      (Slot.located outputClass interfaces.vertex)
      (Slot.located outputClass interfaces.fragment) := by
  rw [ofInterfaces]
  have noneDone : Separated words [] (Slot.located outputClass interfaces.fragment) :=
    fun output none => absurd none List.not_mem_nil
  rw [← List.nil_append (Slot.located outputClass interfaces.vertex)] at bounded outputsApart
  exact separated_run bounded room outputsApart rivalsApart noneDone

/-- Relocating the located vertex outputs keeps which of them share a location with
a fragment input, where the outputs and the inputs are distinct each. -/
theorem sameSharing_ofInterfaces
    (bounded : Bounded (Slot.located outputClass interfaces.vertex ++
      Slot.located inputClass interfaces.fragment) ⟨words, interfaces.highestLocation⟩)
    (room : interfaces.highestLocation.toNat +
      (Slot.located outputClass interfaces.vertex).length < UInt32.size)
    (apart : ∀ output ∈ Slot.located outputClass interfaces.vertex,
      output ∉ Slot.located inputClass interfaces.fragment)
    (outputs : Distinct words (Slot.located outputClass interfaces.vertex))
    (inputs : Distinct words (Slot.located inputClass interfaces.fragment)) :
    SameSharing words (ofInterfaces interfaces words).words
      (Slot.located outputClass interfaces.vertex ++
        Slot.located inputClass interfaces.fragment) := by
  rw [ofInterfaces]
  exact sameSharing_run bounded room (fun _ known => known) apart outputs inputs

end Interfaces

end RenderAssets.Spirv.Relocation
