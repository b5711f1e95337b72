import RenderAssets.Shader.Edit
import RenderAssets.Proofs.Shader.ByteForms
import RenderAssets.Proofs.Spirv.OutputSeparation
import RenderAssets.Proofs.Spirv.SeparationFrame

/-!
# Runs of edits on a shader

Some edits put another shader in place of the one at hand: taking up words always does,
and taking up bytes does if they load. Between two such edits a shader stays the module
that it was. The number of its words and the first eight of them are the same, so it is
SPIR-V afterwards exactly if it was before. Its label changes only where one is set, and
its words only where workarounds are applied and report that they were carried out.

That separation keeps the header follows from its frame, for sound modules and for
malformed ones that merely begin with a header. So what is SPIR-V stays loadable.
-/

namespace RenderAssets

/-- An edit puts another shader in place of the one at hand. -/
def ShaderEdit.Replaces : ShaderEdit → Prop
  | .words _ => True
  | .bytes stored => (ShaderBinary.ofBytes stored).isOk = true
  | .label _ => False
  | .apply _ => False

instance : DecidablePred ShaderEdit.Replaces := fun edit =>
  match edit with
  | .words _ => inferInstanceAs (Decidable True)
  | .bytes stored => inferInstanceAs (Decidable ((ShaderBinary.ofBytes stored).isOk = true))
  | .label _ => inferInstanceAs (Decidable False)
  | .apply _ => inferInstanceAs (Decidable False)

namespace ShaderBinary

open Spirv

/-- Two shaders have as many words as each other, and the first eight of them in common. -/
structure SameHeader (before after : ShaderBinary) : Prop where
  length_eq : after.words.length = before.words.length
  header_eq : ∀ place < 8, after.words[place]? = before.words[place]?

namespace SameHeader

variable {before between after : ShaderBinary}

/-- A shader has its own header. -/
theorem refl (shader : ShaderBinary) : SameHeader shader shader :=
  ⟨rfl, fun _ _ => rfl⟩

/-- The header is handed on. -/
theorem trans (first : SameHeader before between) (second : SameHeader between after) :
    SameHeader before after :=
  ⟨second.length_eq.trans first.length_eq, fun place inside =>
    (second.header_eq place inside).trans (first.header_eq place inside)⟩

/-- Whether words are a module shows in their number and in the first of them. -/
theorem isSpirv_eq (same : SameHeader before after) : after.isSpirv = before.isSpirv := by
  have first : after.words.head? = before.words.head? := by
    rw [List.head?_eq_getElem?, List.head?_eq_getElem?]
    exact same.header_eq 0 (by decide)
  rw [isSpirv, isSpirv, Bool.eq_iff_iff, isModule_iff, isModule_iff, same.length_eq, first]

end SameHeader

/-- Workarounds are carried out on SPIR-V only, if separation is switched on, and then the
words are those of the separated module. Otherwise the shader is the same. -/
theorem applyWorkarounds_cases (shader : ShaderBinary) (workarounds : Workarounds) :
    ((shader.applyWorkarounds workarounds).1 = true ∧ shader.isSpirv = true ∧
        workarounds.separateOutputs = true ∧ (separateOutputs shader.words).applied = true ∧
        (shader.applyWorkarounds workarounds).2 =
          { shader with words := (separateOutputs shader.words).words }) ∨
      ((shader.applyWorkarounds workarounds).1 = false ∧
        (shader.applyWorkarounds workarounds).2 = shader) := by
  rw [applyWorkarounds, Workarounds.isEmpty]
  by_cases enabled : workarounds.separateOutputs = true
  · by_cases spirv : shader.isSpirv = true
    · cases applied : (separateOutputs shader.words).applied with
      | true => simp [enabled, spirv, applied]
      | false =>
        have same := applied_iff_scannable.2 applied
        simp [enabled, spirv, applied, same]
    · simp [spirv]
  · simp [enabled]

/-- Separating the outputs of a shader keeps its header. -/
theorem sameHeader_separated (shader : ShaderBinary) :
    SameHeader shader { shader with words := (separateOutputs shader.words).words } where
  length_eq := (separateOutputs_touches shader.words).1
  header_eq := by
    intro place inside
    by_contra changed
    have behind : 5 + 3 ≤ place := behind_header_of_changed changed
    omega

/-- What an edit that replaces nothing does to a shader. -/
structure Effect (edit : ShaderEdit) (before after : ShaderBinary) : Prop where
  /-- Bytes that do not load leave the shader as it was. -/
  refused : ∀ bytes, edit = .bytes bytes → after = before
  /-- A label is set only by asking for it. -/
  labelled : after.label? ≠ before.label? →
    ∃ label, edit = .label label ∧ after.label? = some label
  /-- Other words need workarounds that were carried out. -/
  rewritten : after.words ≠ before.words →
    ∃ workarounds, edit = .apply workarounds ∧ (before.applyWorkarounds workarounds).1 = true
  /-- Workarounds that were carried out leave a separated module, which can be loaded. -/
  applied : ∀ workarounds, edit = .apply workarounds →
    (before.applyWorkarounds workarounds).1 = true →
      before.isSpirv = true ∧ workarounds.separateOutputs = true ∧
        (separateOutputs before.words).applied = true ∧
        after.words = (separateOutputs before.words).words ∧
        ∃ loaded, ofBytes after.bytes = .ok loaded ∧ loaded.words = after.words

section Step

variable {shader : ShaderBinary} {step : ShaderEdit}

/-- Bytes that do not load are passed over. -/
theorem edit_of_refused {bytes : List UInt8} (refused : ¬ (ShaderEdit.bytes bytes).Replaces) :
    shader.edit (.bytes bytes) = shader := by
  have unloadable : ¬ (ofBytes bytes).isOk = true := refused
  rw [edit, edited]
  cases outcome : ofBytes bytes with
  | error failure => rfl
  | ok loaded => exact absurd (by rw [outcome]; rfl) unloadable

/-- An edit that replaces nothing keeps the header. -/
theorem sameHeader_edit (quiet : ¬ step.Replaces) : SameHeader shader (shader.edit step) := by
  cases step with
  | words words => exact absurd trivial quiet
  | bytes bytes =>
    rw [edit_of_refused quiet]
    exact .refl shader
  | label label => exact ⟨rfl, fun _ _ => rfl⟩
  | apply workarounds =>
    change SameHeader shader (shader.applyWorkarounds workarounds).2
    obtain ⟨_, _, _, _, separated⟩ | ⟨_, same⟩ := applyWorkarounds_cases shader workarounds
    · rw [separated]
      exact sameHeader_separated shader
    · rw [same]
      exact .refl shader

/-- An edit that replaces nothing has no other effect than those it may have. -/
theorem effect_edit (quiet : ¬ step.Replaces) : Effect step shader (shader.edit step) := by
  cases step with
  | words words => exact absurd trivial quiet
  | bytes bytes =>
    rw [edit_of_refused quiet]
    exact ⟨fun _ _ => rfl, fun changed => absurd rfl changed, fun changed => absurd rfl changed,
      nofun⟩
  | label label =>
    exact ⟨nofun, fun _ => ⟨label, rfl, rfl⟩, fun changed => absurd rfl changed, nofun⟩
  | apply workarounds =>
    change Effect (.apply workarounds) shader (shader.applyWorkarounds workarounds).2
    obtain ⟨reported, spirv, enabled, applied, separated⟩ | ⟨unreported, same⟩ :=
      applyWorkarounds_cases shader workarounds
    · have sound : (shader.applyWorkarounds workarounds).2.isSpirv = true := by
        rw [separated, (sameHeader_separated shader).isSpirv_eq, spirv]
      have words : (shader.applyWorkarounds workarounds).2.words =
          (separateOutputs shader.words).words := by rw [separated]
      refine ⟨nofun, fun changed => ?_, fun _ => ⟨workarounds, rfl, reported⟩, ?_⟩
      · rw [separated] at changed
        exact absurd rfl changed
      · rintro _ ⟨rfl⟩ _
        exact ⟨spirv, enabled, applied, words, _, ofBytes_bytes_of_isSpirv sound, rfl⟩
    · rw [same]
      refine ⟨nofun, fun changed => absurd rfl changed, fun changed => absurd rfl changed, ?_⟩
      rintro _ ⟨rfl⟩ reported
      exact absurd (reported.symm.trans unreported) (by decide)

end Step

/-- A run in two parts is the second one after the first. -/
theorem editAll_append (shader : ShaderBinary) (first second : List ShaderEdit) :
    shader.editAll (first ++ second) = (shader.editAll first).editAll second :=
  List.foldl_append

/-- Edits that replace nothing keep the header, however many there are. -/
theorem sameHeader_editAll {shader : ShaderBinary} {steps : List ShaderEdit}
    (quiet : ∀ step ∈ steps, ¬ step.Replaces) : SameHeader shader (shader.editAll steps) := by
  induction steps generalizing shader with
  | nil => exact .refl shader
  | cons step rest inductionHypothesis =>
    obtain ⟨first, later⟩ := List.forall_mem_cons.mp quiet
    exact (sameHeader_edit first).trans (inductionHypothesis later)

/-- In every run of edits, a stretch in which nothing is replaced keeps the number of the
words, the first eight of them, and with these whether the shader is SPIR-V. Every single
edit that replaces nothing has no other effect than those it may have. -/
theorem edits_between_replacements (start : ShaderBinary) (run : List ShaderEdit) :
    (∀ before stretch after, run = before ++ stretch ++ after →
        (∀ step ∈ stretch, ¬ step.Replaces) →
          SameHeader (start.editAll before) (start.editAll (before ++ stretch)) ∧
            (start.editAll (before ++ stretch)).isSpirv = (start.editAll before).isSpirv) ∧
      ∀ before step after, run = before ++ step :: after → ¬ step.Replaces →
        Effect step (start.editAll before) (start.editAll (before ++ [step])) := by
  constructor
  · intro before stretch after _ quiet
    have same : SameHeader (start.editAll before) (start.editAll (before ++ stretch)) := by
      rw [editAll_append]
      exact sameHeader_editAll quiet
    exact ⟨same, same.isSpirv_eq⟩
  · intro before step after _ quiet
    rw [editAll_append]
    exact effect_edit quiet

/-- A crowded module is taken up, labelled, kept when part of a word is offered in its place,
and separated. -/
def handledRun : List ShaderEdit :=
  [.words crowdedModule, .label "lit_mesh", .bytes [3, 2, 0x23], .apply .all]

/-- After it was taken up its header stays, and the last edit leaves the separated module,
which can be loaded. -/
theorem handledRun_keeps_header :
    SameHeader (ofWords crowdedModule) ((ofWords []).editAll handledRun) ∧
      ((ofWords []).editAll handledRun).isSpirv = true ∧
      ((ofWords []).editAll handledRun).label? = some "lit_mesh" ∧
      ((ofWords []).editAll handledRun).words = (separateOutputs crowdedModule).words ∧
      ∃ loaded, ofBytes ((ofWords []).editAll handledRun).bytes = .ok loaded ∧
        loaded.words = ((ofWords []).editAll handledRun).words := by
  obtain ⟨stretches, effects⟩ := edits_between_replacements (ofWords []) handledRun
  obtain ⟨same, spirv⟩ := stretches [.words crowdedModule]
    [.label "lit_mesh", .bytes [3, 2, 0x23], .apply .all] [] rfl (by decide)
  have effect := effects [.words crowdedModule, .label "lit_mesh", .bytes [3, 2, 0x23]]
    (.apply .all) [] rfl (by decide)
  have separable : (separateOutputs crowdedModule).applied = true :=
    applied_iff_scannable.1.mpr (by decide)
  obtain ⟨_, _, _, words, loads⟩ := effect.applied .all rfl separable
  refine ⟨same, spirv, ?_, words, loads⟩
  by_contra other
  obtain ⟨_, labels, _⟩ := effect.labelled other
  exact nomatch labels

end ShaderBinary

end RenderAssets
