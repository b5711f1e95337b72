import RenderAssets.Proofs.Spirv.CheckedCursor

/-!
# A scan whose accesses are checked

The interface scan once more, with its loops and its accesses checked. The words of
an instruction are read by index once their number has been compared with four. The
interface ids are the suffix behind the word that ends the text. A slot is the one at
the index of its id, in a list that was made with one slot for each id.

The checked scan finds what the scan finds. Two things make that so. Found
instructions are present in the module, with as many words as they claim. And taking
note of something never changes the ids of the slots, so that an index into the ids
is an index into the slots all along.
-/

namespace RenderAssets.Spirv.Checked

/-- The interface ids in the words of an entry point, taken as a suffix. -/
def interfaceIds (entryPoint : List UInt32) : Except Fault (List UInt32) :=
  match (entryPoint.drop 3).findIdx? fun word => !continuesText word with
  | some terminator => suffixFrom entryPoint (3 + terminator + 1)
  | none => .ok []

/-- Change the slot at the first index of an id. Without one, nothing changes. -/
def assign (ids : List UInt32) (slots : List Slot) (id : UInt32) (change : Slot → Slot) :
    Except Fault (List Slot) :=
  match ids.findIdx? (· == id) with
  | some index => do
    let slot ← entryAt slots index
    replaceAt slots index (change slot)
  | none => .ok slots

/-- Change the first slot of an id in each interface. -/
def assignBoth (vertexIds fragmentIds : List UInt32) (interfaces : StageInterfaces) (id : UInt32)
    (change : Slot → Slot) : Except Fault StageInterfaces := do
  let vertex ← assign vertexIds interfaces.vertex id change
  let fragment ← assign fragmentIds interfaces.fragment id change
  return { interfaces with vertex, fragment }

/-- The words of the first entry point of each stage, as far as they have been found. -/
structure FirstEntryPoints where
  vertex? : Option (List UInt32) := none
  fragment? : Option (List UInt32) := none

/-- Take note of an entry point that has been found, unless it is too short. -/
def takeEntryPoint (words : List UInt32) (first : FirstEntryPoints) (instruction : Instruction) :
    Except Fault (Option FirstEntryPoints) :=
  match instruction.words? words with
  | none => .ok none
  | some entryPoint =>
    if entryPoint.length < 4 then .ok none
    else do
      let model ← entryAt entryPoint 1
      if model = Stage.vertex.executionModel ∧ first.vertex? = none then
        return some { first with vertex? := some entryPoint }
      else if model = Stage.fragment.executionModel ∧ first.fragment? = none then
        return some { first with fragment? := some entryPoint }
      else
        return some first

/-- Take note of a decoration that has been found, if it gives a location. -/
def takeDecoration (words vertexIds fragmentIds : List UInt32) (interfaces : StageInterfaces)
    (instruction : Instruction) : Except Fault (Option StageInterfaces) :=
  match instruction.words? words with
  | none => .ok none
  | some decoration =>
    if decoration.length < 4 then .ok (some interfaces)
    else do
      let kind ← entryAt decoration 2
      if kind ≠ locationDecoration then return some interfaces
      else
        let location ← entryAt decoration 3
        let target ← entryAt decoration 1
        let settled ← assignBoth vertexIds fragmentIds interfaces target fun slot =>
          { slot with location? := some (instruction.offset + 3) }
        return some
          { settled with highestLocation := max interfaces.highestLocation location }

/-- Take note of a variable that has been found, unless it is too short. -/
def takeVariable (words vertexIds fragmentIds : List UInt32) (interfaces : StageInterfaces)
    (instruction : Instruction) : Except Fault (Option StageInterfaces) :=
  match instruction.words? words with
  | none => .ok none
  | some declared =>
    if declared.length < 4 then .ok none
    else do
      let storageClass ← entryAt declared 3
      let id ← entryAt declared 2
      let settled ← assignBoth vertexIds fragmentIds interfaces id fun slot =>
        { slot with storageClass? := some storageClass }
      return some settled

/-- The interfaces with some ids, settled by the decorations and then the variables
behind a cursor. Each of the two loops may take one round for each word of the module,
and one to see the end. -/
def scanSlots (words vertexIds fragmentIds : List UInt32) (afterEntryPoints : Cursor) :
    Except Fault (Option StageInterfaces) := do
  let rounds := words.length + 1
  let unsettled : StageInterfaces :=
    { vertex := Slot.unsettled vertexIds, fragment := Slot.unsettled fragmentIds }
  match ← forEachFound Opcode.decorate (takeDecoration words vertexIds fragmentIds) rounds
    afterEntryPoints unsettled with
  | none => return none
  | some (located, afterDecorations) =>
    match ← forEachFound Opcode.declareVariable (takeVariable words vertexIds fragmentIds) rounds
      afterDecorations located with
    | none => return none
    | some (interfaces, _) => return some interfaces

/-- The interfaces of a module, if both stages have one. The loop over entry points has
as many rounds as the other two. -/
def scan (words : List UInt32) : Except Fault (Option StageInterfaces) := do
  match ← forEachFound Opcode.entryPoint (takeEntryPoint words) (words.length + 1)
    (Cursor.start words) {} with
  | none => return none
  | some (first, afterEntryPoints) =>
    match first.vertex?, first.fragment? with
    | some vertexEntryPoint, some fragmentEntryPoint =>
      let vertexIds ← interfaceIds vertexEntryPoint
      let fragmentIds ← interfaceIds fragmentEntryPoint
      if vertexIds.isEmpty || fragmentIds.isEmpty then return none
      else scanSlots words vertexIds fragmentIds afterEntryPoints
    | _, _ => return none

/-- The suffix of interface ids begins within the entry point: the word that ends the
text is one of its words. Without such a word the ids are none either way. -/
theorem interfaceIds_eq (entryPoint : List UInt32) :
    interfaceIds entryPoint = .ok (Spirv.interfaceIds entryPoint) := by
  rw [interfaceIds, interfaceIds_eq_drop]
  cases ends : (entryPoint.drop 3).findIdx? fun word => !continuesText word with
  | none =>
    have never := List.findIdx_eq_length_of_false (List.findIdx?_eq_none_iff.mp ends)
    rw [never, List.length_drop, List.drop_eq_nil_of_le (by omega)]
  | some terminator =>
    obtain ⟨inside, same⟩ := List.findIdx?_eq_some_iff_findIdx_eq.mp ends
    rw [List.length_drop] at inside
    rw [same]
    exact if_pos (by omega)

/-- Changing the first slot of an id is changing the slot at its first index. -/
theorem settle_eq_modify (id : UInt32) (change : Slot → Slot) (slots : List Slot) :
    Slot.settle id change slots =
      match slots.findIdx? (·.id == id) with
      | some index => slots.modify index change
      | none => slots := by
  induction slots with
  | nil => rfl
  | cons slot rest inductionHypothesis =>
    rw [Slot.settle, List.findIdx?_cons, inductionHypothesis]
    by_cases same : slot.id = id
    · simp only [same, ↓reduceIte, beq_self_eq_true, List.modify_zero_cons]
    · simp only [same, ↓reduceIte, beq_iff_eq]
      cases rest.findIdx? (·.id == id) with
      | none => rfl
      | some index => simp only [Option.map_some, List.modify_succ_cons]

/-- Slots that were made for some ids are as many, and in their order, so that an index
of an id is an index of its slot. -/
theorem assign_eq {ids : List UInt32} {slots : List Slot} (sized : slots.map (·.id) = ids)
    (id : UInt32) (change : Slot → Slot) :
    assign ids slots id change = .ok (Slot.settle id change slots) := by
  have sameIndex : ids.findIdx? (· == id) = slots.findIdx? (·.id == id) := by
    rw [← sized, List.findIdx?_map]
    rfl
  rw [assign, settle_eq_modify, sameIndex]
  cases found : slots.findIdx? (·.id == id) with
  | none => rfl
  | some index =>
    obtain ⟨inside, _⟩ := List.findIdx?_eq_some_iff_findIdx_eq.mp found
    have present := List.getElem?_eq_getElem inside
    simp only [entryAt_eq_ok_iff.mpr present, ok_bind, replaceAt, inside, ↓reduceIte,
      List.modify_eq_set_getElem?, present, Option.map_eq_map, Option.map_some, Option.getD_some]

/-- Changing a slot without its id keeps the ids. -/
theorem ids_settle (id : UInt32) (change : Slot → Slot)
    (keeps : ∀ slot, (change slot).id = slot.id) (slots : List Slot) :
    (Slot.settle id change slots).map (·.id) = slots.map (·.id) := by
  induction slots with
  | nil => rfl
  | cons slot rest inductionHypothesis =>
    rw [Slot.settle]
    by_cases same : slot.id = id
    · simp only [same, ↓reduceIte, List.map_cons, keeps]
    · simp only [same, ↓reduceIte, List.map_cons, inductionHypothesis]

/-- Interfaces with one slot for each of the ids they were made for, in their order. -/
structure Sized (vertexIds fragmentIds : List UInt32) (interfaces : StageInterfaces) : Prop where
  vertex : interfaces.vertex.map (·.id) = vertexIds
  fragment : interfaces.fragment.map (·.id) = fragmentIds

section Interfaces

variable {words vertexIds fragmentIds : List UInt32} {interfaces : StageInterfaces}

/-- Settling an id in both interfaces keeps their size. -/
theorem Sized.settle (sized : Sized vertexIds fragmentIds interfaces) (id : UInt32)
    (change : Slot → Slot) (keeps : ∀ slot, (change slot).id = slot.id) :
    Sized vertexIds fragmentIds (interfaces.settle id change) := by
  constructor
  · exact (ids_settle id change keeps interfaces.vertex).trans sized.vertex
  · exact (ids_settle id change keeps interfaces.fragment).trans sized.fragment

/-- Taking note of a location keeps the size of the interfaces. -/
theorem Sized.noteLocation (sized : Sized vertexIds fragmentIds interfaces)
    (decoration : LocationDecoration) :
    Sized vertexIds fragmentIds (interfaces.noteLocation decoration) := by
  have settled := sized.settle decoration.target
    (fun slot => { slot with location? := some decoration.offset }) fun _ => rfl
  exact ⟨settled.vertex, settled.fragment⟩

/-- Taking note of a variable keeps the size of the interfaces. -/
theorem Sized.noteVariable (sized : Sized vertexIds fragmentIds interfaces)
    (declaration : VariableDeclaration) :
    Sized vertexIds fragmentIds (interfaces.noteVariable declaration) :=
  sized.settle declaration.id _ fun _ => rfl

/-- Noting one location after the other keeps the size of the interfaces. -/
theorem Sized.foldl_noteLocation (sized : Sized vertexIds fragmentIds interfaces)
    (decorations : List LocationDecoration) :
    Sized vertexIds fragmentIds (decorations.foldl StageInterfaces.noteLocation interfaces) :=
  List.foldlRecOn decorations StageInterfaces.noteLocation sized
    fun _ settled decoration _ => settled.noteLocation decoration

/-- The slots of which nothing is known are one for each id. -/
theorem Sized.unsettled (vertexIds fragmentIds : List UInt32) :
    Sized vertexIds fragmentIds
      { vertex := Slot.unsettled vertexIds, fragment := Slot.unsettled fragmentIds } := by
  constructor
  all_goals simp only [Slot.unsettled, List.map_map, Function.comp_def, List.map_id']

/-- In sized interfaces the checked change of both has no fault. -/
theorem assignBoth_eq (sized : Sized vertexIds fragmentIds interfaces) (id : UInt32)
    (change : Slot → Slot) :
    assignBoth vertexIds fragmentIds interfaces id change = .ok (interfaces.settle id change) := by
  rw [assignBoth, assign_eq sized.vertex, ok_bind, assign_eq sized.fragment]
  rfl

/-- Reading four words or more by index has no fault up to the fourth. -/
theorem takeDecoration_eq (sized : Sized vertexIds fragmentIds interfaces)
    {instruction : Instruction} (stands : instruction.StandsIn words) :
    takeDecoration words vertexIds fragmentIds interfaces instruction =
      .ok (some ((LocationDecoration.read? words instruction).elim interfaces
        interfaces.noteLocation)) := by
  obtain ⟨found, present, _⟩ := stands.present
  rw [takeDecoration, LocationDecoration.read?, present]
  rcases found with _ | ⟨first, _ | ⟨target, _ | ⟨kind, _ | ⟨location, rest⟩⟩⟩⟩
  · rfl
  · rfl
  · rfl
  · rfl
  · have long : ¬ (first :: target :: kind :: location :: rest).length < 4 := by
      simp only [List.length_cons]
      omega
    simp only [long, ↓reduceIte]
    by_cases locates : kind = locationDecoration
    · subst locates
      simp only [entryAt, List.getElem?_cons_succ, List.getElem?_cons_zero, ok_bind, ne_eq,
        not_true_eq_false, ↓reduceIte, assignBoth_eq sized, Option.elim_some]
      rfl
    · simp only [entryAt, List.getElem?_cons_succ, List.getElem?_cons_zero, ok_bind, ne_eq,
        locates, not_false_eq_true, ↓reduceIte, Option.elim_none]
      rfl

/-- A variable is read by index like a decoration, unless it is too short. -/
theorem takeVariable_eq (sized : Sized vertexIds fragmentIds interfaces)
    (instruction : Instruction) :
    takeVariable words vertexIds fragmentIds interfaces instruction =
      .ok ((VariableDeclaration.read? words instruction).map interfaces.noteVariable) := by
  rw [takeVariable, VariableDeclaration.read?]
  cases instruction.words? words with
  | none => rfl
  | some found =>
    rcases found with _ | ⟨first, _ | ⟨type, _ | ⟨id, _ | ⟨storageClass, rest⟩⟩⟩⟩
    · rfl
    · rfl
    · rfl
    · rfl
    · have long : ¬ (first :: type :: id :: storageClass :: rest).length < 4 := by
        simp only [List.length_cons]
        omega
      simp only [long, ↓reduceIte, entryAt, List.getElem?_cons_succ, List.getElem?_cons_zero,
        ok_bind, assignBoth_eq sized]
      rfl

end Interfaces

/-- The words of an instruction that has four of them or more. -/
def longWords? (words : List UInt32) (instruction : Instruction) : Option (List UInt32) :=
  (instruction.words? words).filter fun found => 4 ≤ found.length

/-- What the words of an entry point say. -/
def entryPointOf (entryPoint : List UInt32) : EntryPoint where
  executionModel := entryPoint.getD 1 0
  interface := Spirv.interfaceIds entryPoint

/-- The first of some entry points that belongs to a stage. -/
def firstOf (stage : Stage) (entryPoints : List (List UInt32)) : Option (List UInt32) :=
  entryPoints.find? fun entryPoint =>
    (entryPointOf entryPoint).executionModel == stage.executionModel

/-- The first entry points of the stages, with one more to choose from. -/
def FirstEntryPoints.note (first : FirstEntryPoints) (entryPoint : List UInt32) :
    FirstEntryPoints where
  vertex? := first.vertex?.or (firstOf .vertex [entryPoint])
  fragment? := first.fragment?.or (firstOf .fragment [entryPoint])

/-- One entry point is the first of its stage and of no other. -/
theorem firstOf_singleton (stage : Stage) (entryPoint : List UInt32) :
    firstOf stage [entryPoint] =
      if (entryPointOf entryPoint).executionModel = stage.executionModel then some entryPoint
      else none := by
  rw [firstOf, List.find?_singleton]
  simp only [beq_iff_eq]

/-- An entry point is what its words say, if there are enough of them. -/
theorem read?_eq_map (words : List UInt32) (instruction : Instruction) :
    EntryPoint.read? words instruction = (longWords? words instruction).map entryPointOf := by
  rw [EntryPoint.read?, longWords?]
  cases instruction.words? words with
  | none => rfl
  | some found =>
    rcases found with _ | ⟨_, _ | ⟨_, _ | ⟨_, _ | ⟨_, rest⟩⟩⟩⟩
    all_goals simp [EntryPoint.ofWords?, entryPointOf, Option.filter]

/-- An entry point is read by index and taken note of, unless it is too short. It
belongs to one stage at most. -/
theorem takeEntryPoint_eq (words : List UInt32) (first : FirstEntryPoints)
    (instruction : Instruction) :
    takeEntryPoint words first instruction =
      .ok ((longWords? words instruction).map first.note) := by
  rw [takeEntryPoint, longWords?]
  cases instruction.words? words with
  | none => rfl
  | some found =>
    by_cases short : found.length < 4
    · simp [short, Option.filter]
    · have long : 4 ≤ found.length := Nat.le_of_not_lt short
      have present := List.getElem?_eq_getElem (show 1 < found.length by omega)
      have model : (entryPointOf found).executionModel = found[1] := by
        simp only [entryPointOf, List.getD_eq_getElem?_getD, present, Option.getD_some]
      have different : Stage.vertex.executionModel ≠ Stage.fragment.executionModel := by decide
      simp only [short, ↓reduceIte, entryAt_eq_ok_iff.mpr present, ok_bind, Option.filter_some,
        long, decide_true, Option.map_some, FirstEntryPoints.note, firstOf_singleton, model]
      rcases first with ⟨vertex?, fragment?⟩
      by_cases ofVertex : found[1] = Stage.vertex.executionModel
      · cases vertex? <;> simp [ofVertex, different, pure, Except.pure]
      · by_cases ofFragment : found[1] = Stage.fragment.executionModel
        · cases fragment? <;> simp [ofFragment, different.symm, pure, Except.pure]
        · simp [ofVertex, ofFragment, pure, Except.pure]

/-- Noting entry points one after the other leaves the first one of each stage. -/
theorem foldl_note (first : FirstEntryPoints) (entryPoints : List (List UInt32)) :
    entryPoints.foldl FirstEntryPoints.note first =
      { vertex? := first.vertex?.or (firstOf .vertex entryPoints)
        fragment? := first.fragment?.or (firstOf .fragment entryPoints) } := by
  have split (stage : Stage) (entryPoint : List UInt32) (rest : List (List UInt32)) :
      firstOf stage (entryPoint :: rest) =
        (firstOf stage [entryPoint]).or (firstOf stage rest) := by
    rw [← List.singleton_append, firstOf, List.find?_append]
    rfl
  induction entryPoints generalizing first with
  | nil => simp [firstOf]
  | cons entryPoint rest inductionHypothesis =>
    rw [List.foldl_cons, inductionHypothesis, split .vertex, split .fragment]
    simp only [FirstEntryPoints.note, Option.or_assoc]

/-- The interface of the first entry point of a stage, read off its words. -/
theorem interface?_map (stage : Stage) (entryPoints : List (List UInt32)) :
    EntryPoint.interface? stage (entryPoints.map entryPointOf) =
      match firstOf stage entryPoints with
      | some entryPoint =>
        if (Spirv.interfaceIds entryPoint).isEmpty then none
        else some (Spirv.interfaceIds entryPoint)
      | none => none := by
  have first : (entryPoints.map entryPointOf).find?
      (fun entryPoint => entryPoint.executionModel == stage.executionModel) =
        (firstOf stage entryPoints).map entryPointOf := List.find?_map
  rw [EntryPoint.interface?, first]
  cases firstOf stage entryPoints <;> rfl

/-- Reading every item and making something of it succeeds where reading does. -/
theorem mapM_map {Item Value Result : Type} (read : Item → Option Value) (make : Value → Result)
    (items : List Item) :
    (items.mapM fun item => (read item).map make) = (items.mapM read).map (List.map make) := by
  induction items with
  | nil => rfl
  | cons item rest inductionHypothesis =>
    rw [List.mapM_cons, List.mapM_cons, inductionHypothesis]
    cases read item with
    | none => rfl
    | some value => cases rest.mapM read <;> rfl

/-- A cursor has no more words left to read than its module has. -/
theorem remaining_lt {words : List UInt32} {cursor : Cursor} (kept : cursor.words = words) :
    cursor.remaining < words.length + 1 := by
  rw [Cursor.remaining, kept]
  exact Nat.lt_succ_of_le (Nat.sub_le _ _)

/-- Everything that is found from a sound cursor stands in its words. -/
theorem stands_of_found {words : List UInt32} {opcode : UInt32} {cursor : Cursor}
    (sound : cursor.Sound) (kept : cursor.words = words) {instruction : Instruction}
    (member : instruction ∈ (cursor.findAll opcode).1) : instruction.StandsIn words := by
  rw [(Cursor.findAll_spec opcode sound).1] at member
  exact kept ▸ (Cursor.stands_of_listed sound.inside (List.mem_filter.mp member).1).1

/-- The checked loop over entry points finds the first ones of the stages. -/
theorem forEachFound_entryPoints (words : List UInt32) {cursor : Cursor}
    (kept : cursor.words = words) :
    forEachFound Opcode.entryPoint (takeEntryPoint words) (words.length + 1) cursor {} =
      .ok (((cursor.findAll Opcode.entryPoint).1.mapM (longWords? words)).map fun found =>
        ({ vertex? := firstOf .vertex found, fragment? := firstOf .fragment found },
          (cursor.findAll Opcode.entryPoint).2)) := by
  rw [forEachFound_eq Opcode.entryPoint (longWords? words) FirstEntryPoints.note (fun _ => True)
    (fun _ _ _ => trivial) (remaining_lt kept)
    (fun first _ instruction _ => takeEntryPoint_eq words first instruction) trivial]
  simp only [foldl_note, Option.none_or]

section Loops

variable {words vertexIds fragmentIds : List UInt32} {interfaces : StageInterfaces}
  {cursor : Cursor}

/-- The checked loop over decorations notes all that give a location. -/
theorem forEachFound_decorations (sound : cursor.Sound) (kept : cursor.words = words)
    (sized : Sized vertexIds fragmentIds interfaces) :
    forEachFound Opcode.decorate (takeDecoration words vertexIds fragmentIds) (words.length + 1)
        cursor interfaces =
      .ok (some (((cursor.findAll Opcode.decorate).1.filterMap
          (LocationDecoration.read? words)).foldl StageInterfaces.noteLocation interfaces,
        (cursor.findAll Opcode.decorate).2)) := by
  have keeps : ∀ state (note : Option LocationDecoration), Sized vertexIds fragmentIds state →
      Sized vertexIds fragmentIds (note.elim state state.noteLocation) := by
    intro state note stateSized
    cases note with
    | none => exact stateSized
    | some decoration => exact stateSized.noteLocation decoration
  rw [forEachFound_eq Opcode.decorate (fun instruction =>
      some (LocationDecoration.read? words instruction))
    (fun state note => note.elim state state.noteLocation) (Sized vertexIds fragmentIds) keeps
    (remaining_lt kept)
    (fun state stateSized instruction member =>
      takeDecoration_eq stateSized (stands_of_found sound kept member)) sized]
  have all : ((cursor.findAll Opcode.decorate).1.mapM fun instruction =>
      some (LocationDecoration.read? words instruction)) =
        some ((cursor.findAll Opcode.decorate).1.map (LocationDecoration.read? words)) :=
    List.mapM_pure
  rw [all, Option.map_some, List.foldl_map, List.foldl_filterMap]
  congr 4
  funext state instruction
  cases LocationDecoration.read? words instruction <;> rfl

/-- The checked loop over variables notes all of them, if none is too short. -/
theorem forEachFound_variables (kept : cursor.words = words)
    (sized : Sized vertexIds fragmentIds interfaces) :
    forEachFound Opcode.declareVariable (takeVariable words vertexIds fragmentIds)
        (words.length + 1) cursor interfaces =
      .ok (((cursor.findAll Opcode.declareVariable).1.mapM
        (VariableDeclaration.read? words)).map fun declarations =>
          (declarations.foldl StageInterfaces.noteVariable interfaces,
            (cursor.findAll Opcode.declareVariable).2)) :=
  forEachFound_eq Opcode.declareVariable (VariableDeclaration.read? words)
    StageInterfaces.noteVariable (Sized vertexIds fragmentIds)
    (fun _ declaration stateSized => stateSized.noteVariable declaration) (remaining_lt kept)
    (fun _ stateSized instruction _ => takeVariable_eq stateSized instruction) sized

/-- The two checked loops, one behind the other, settle the slots as the scan does. -/
theorem scanSlots_eq (vertexIds fragmentIds : List UInt32) (sound : cursor.Sound)
    (kept : cursor.words = words) :
    scanSlots words vertexIds fragmentIds cursor =
      .ok ((((cursor.findAll Opcode.decorate).2.findAll Opcode.declareVariable).1.mapM
        (VariableDeclaration.read? words)).map fun declarations =>
          declarations.foldl StageInterfaces.noteVariable
            (((cursor.findAll Opcode.decorate).1.filterMap
              (LocationDecoration.read? words)).foldl StageInterfaces.noteLocation
                { vertex := Slot.unsettled vertexIds
                  fragment := Slot.unsettled fragmentIds })) := by
  have sized := Sized.unsettled vertexIds fragmentIds
  obtain ⟨_, _, keptLast, _⟩ := Cursor.findAll_spec Opcode.decorate sound
  simp only [scanSlots, forEachFound_decorations sound kept sized, ok_bind,
    forEachFound_variables (keptLast.trans kept) (sized.foldl_noteLocation _)]
  cases ((cursor.findAll Opcode.decorate).2.findAll Opcode.declareVariable).1.mapM
    (VariableDeclaration.read? words) <;> rfl

end Loops

/-- The checked scan has no fault and finds what the scan finds. -/
theorem scan_eq (words : List UInt32) : scan words = .ok (StageInterfaces.scan? words) := by
  obtain ⟨_, sound, kept, _⟩ :=
    Cursor.findAll_spec Opcode.entryPoint (Cursor.start_sound words)
  have readAll : ((Cursor.start words).findAll Opcode.entryPoint).1.mapM
      (EntryPoint.read? words) =
        (((Cursor.start words).findAll Opcode.entryPoint).1.mapM (longWords? words)).map
          (List.map entryPointOf) := by
    rw [← mapM_map]
    exact congrArg (List.mapM · _) (funext (read?_eq_map words))
  have start : (Cursor.start words).words = words := rfl
  rw [scan]
  simp only [forEachFound_entryPoints words start, ok_bind]
  unfold StageInterfaces.scan?
  simp only [readAll]
  cases ((Cursor.start words).findAll Opcode.entryPoint).1.mapM (longWords? words) with
  | none => rfl
  | some found =>
    simp only [Option.map_some, Option.bind_eq_bind, Option.bind_some, interface?_map]
    cases firstOf .vertex found with
    | none => rfl
    | some vertexEntryPoint =>
      cases firstOf .fragment found with
      | none =>
        simp only [Option.bind_none, Option.bind_fun_none]
        rfl
      | some fragmentEntryPoint =>
        have slots := scanSlots_eq (Spirv.interfaceIds vertexEntryPoint)
          (Spirv.interfaceIds fragmentEntryPoint) sound (kept.trans start)
        rw [Option.map_eq_bind] at slots
        simp only [interfaceIds_eq, ok_bind, slots]
        cases (Spirv.interfaceIds vertexEntryPoint).isEmpty with
        | true => rfl
        | false =>
          cases (Spirv.interfaceIds fragmentEntryPoint).isEmpty with
          | true => rfl
          | false => rfl

end RenderAssets.Spirv.Checked
