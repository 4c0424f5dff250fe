import Graft.Proofs.Naming.Segment
import Graft.Proofs.Registry.Refusal

set_option autoImplicit false

/-!
Configurations that are made for decisions. Whatever a registry has been through, it meets the two requests of
a configuration, and both are for modules whose paths the settings themselves could hold.
-/
namespace Graft

namespace Naming

theorem isPath_library (settings : Settings) (decision : Decision) :
    isPath (library settings decision).source = true := by
  have root := settings.virtualRoot.valid
  rw [isPath, List.all_eq_true] at root ⊢
  intro part mem
  cases decision with
  | static type =>
    simp only [library, inputModule, Dotted.segments_append_point, List.mem_append,
      Dotted.segments_of_isWord settings.inputs.valid, Dotted.segments_of_isWord (isWord_segment type),
      List.mem_singleton] at mem
    obtain (mem | rfl) | rfl := mem
    next => exact root part mem
    next => exact settings.inputs.valid
    next => exact isWord_segment type
  | dynamic =>
    simp only [library, fallbackModule, Dotted.segments_append_point, List.mem_append,
      Dotted.segments_of_isWord settings.library.valid, List.mem_singleton] at mem
    obtain mem | rfl := mem
    next => exact root part mem
    next => exact settings.library.valid

end Naming

/-- A configuration takes two requests, the one for the bindings first. -/
theorem Work.outcome_synthesize (settings : Settings) (use : Use) (decision : Decision) {before : Progress}
    {first second : Registry.Ensured} {bindings library : Identifier}
    (head : before.registry.ensure settings.bindings = .ok first)
    (tail : first.registry.ensure (Naming.library settings decision) = .ok second)
    (named : first.name = bindings.text) (also : second.name = library.text) :
    (synthesize settings use decision).outcome before =
      (.ok (.configOf bindings library), { before with
        registry := second.registry
        notices := before.notices ++ first.notices ++ second.notices ++
          [configuredNotice use [bindings.text, library.text] (Naming.specifier settings decision)] }) := by
  simp only [synthesize, notify, outcome_bind, outcome_ensure, head, tail, outcome_modify,
    outcome_ofExcept, named, also, configDict_pair]
  rfl

/-- The segment of a type is a word, and the type itself if that is one. So the two exports that a decision
asks for are in modules with proper paths, and every registry in use meets both requests: the configuration is
made, and names what they are given. -/
theorem synthesis_imports_paths (settings : Settings) (decision : Decision) :
    let requests := [settings.bindings, Naming.library settings decision]
    ((∀ type, isWord (Naming.segment type) = true) ∧
      (∀ type, Naming.segment type = type ↔ isWord type = true) ∧
      (∀ type, Naming.segment (Naming.segment type) = Naming.segment type) ∧
      Set.range Naming.segment = {text | isWord text = true}) ∧
    (∀ wanted ∈ requests,
      (∃ path, Settings.checkPath .modulePath wanted.source = .ok path ∧ path.text = wanted.source) ∧
        ∃ word, Settings.checkWord wanted.name = .ok word ∧ word.text = wanted.name) ∧
    ∀ module survey operations use before, module.wellFormed = true →
      before.registry =
        ((⟨(Registry.ofModule module survey).1, []⟩ : Registry.Session).run operations).registry →
      ∃ bindings library after,
        (Work.synthesize settings use decision).outcome before = (.ok (.configOf bindings library), after) ∧
          after.registry = ((⟨before.registry, []⟩ : Registry.Session).run (requests.map .ensure)).registry ∧
          requests.map after.registry.lookup = [bindings.text, library.text] := by
  intro requests
  refine ⟨⟨Naming.isWord_segment, fun _ => Naming.segment_eq_self_iff, Naming.segment_segment,
    Naming.range_segment⟩, fun wanted mem => ?_, ?_⟩
  next =>
    have word : Settings.checkWord settings.libraryExport.text = .ok settings.libraryExport :=
      Settings.checkWord_text _
    simp only [requests, List.mem_cons, List.not_mem_nil, or_false] at mem
    obtain rfl | rfl := mem
    next =>
      exact ⟨⟨_, Settings.checkPath_text _ settings.bindingsModule, rfl⟩,
        ⟨_, Settings.checkWord_text settings.bindingsExport, rfl⟩⟩
    next =>
      have path := Settings.checkPath_text .modulePath ⟨_, Naming.isPath_library settings decision⟩
      exact ⟨⟨_, path, rfl⟩, by cases decision <;> exact ⟨_, word, rfl⟩⟩
  next =>
    intro module survey operations use before wellFormed reached
    have sound : before.registry.Sound :=
      reached ▸ Registry.Session.sound_run (Registry.ofModule_sound wellFormed survey) operations
    obtain ⟨first, early, head, valid, known, extension⟩ :=
      Registry.ensure_eq_ok sound settings.bindings_importable
    obtain ⟨second, late, tail, good, found, growth⟩ :=
      Registry.ensure_eq_ok (extension.sound sound) (Naming.library_importable settings decision)
    refine ⟨⟨first.name, valid⟩, ⟨second.name, good⟩, _,
      Work.outcome_synthesize settings use decision head tail rfl rfl, ?_, ?_⟩
    next => simp [requests, Registry.Session.run, Registry.Session.step, head, tail]
    next =>
      -- The second request keeps what the first was given.
      simp [requests, Registry.lookup_of_known (growth.lookup known), Registry.lookup_of_known found]

/-- The bindings are imported under another name, and the type is one that no module could be called. -/
theorem synthesis_imports_paths_dashed : ∃ module survey use bindings library after,
    Module.parse? "from formkit.vue import FormKit, bindings as plugin\nFormKit(el)\n" = some module ∧
      Scope.survey module = .ok survey ∧ use ∈ module.uses .standard none survey ∧
      (Work.synthesize .standard use (.static "datetime-local")).outcome
        ⟨{}, [], (Registry.ofModule module survey).1, []⟩ = (.ok (.configOf bindings library), after) ∧
      bindings.text = "plugin" ∧ library.text = "library" ∧
      ∃ path, Settings.checkPath .modulePath "formkit_virtual.inputs.datetime_local" = .ok path := by
  have check : ((Module.parse? "from formkit.vue import FormKit, bindings as plugin\nFormKit(el)\n").bind
      fun module => (Scope.survey module).toOption.map fun survey =>
        let start : Registry.Session := ⟨(Registry.ofModule module survey).1, []⟩
        let requests := [Settings.standard.bindings, Naming.library .standard (.static "datetime-local")]
        !(module.uses .standard none survey).isEmpty &&
          requests.map (start.run (requests.map .ensure)).registry.lookup == ["plugin", "library"]) =
      some true := by
    decide +kernel
  obtain ⟨module, parsed, check⟩ := Option.bind_eq_some_iff.1 check
  obtain ⟨survey, surveyed, check⟩ := Option.map_eq_some_iff.1 check
  simp only [Bool.and_eq_true, beq_iff_eq, Bool.not_eq_true'] at check
  obtain ⟨some, names⟩ := check
  obtain ⟨use, mem⟩ := List.exists_mem_of_ne_nil _ (by simpa using some)
  obtain ⟨-, paths, makes⟩ := synthesis_imports_paths .standard (.static "datetime-local")
  obtain ⟨bindings, library, after, made, same, named⟩ :=
    makes module survey [] use ⟨{}, [], (Registry.ofModule module survey).1, []⟩
      (Module.wellFormed_of_parse? parsed) rfl
  rw [same, names] at named
  obtain ⟨first, second⟩ : "plugin" = bindings.text ∧ "library" = library.text := by simpa using named
  obtain ⟨path, checked, -⟩ := (paths (Naming.library .standard (.static "datetime-local")) (by simp)).1
  have source : (Naming.library .standard (.static "datetime-local")).source =
      "formkit_virtual.inputs.datetime_local" := by decide +kernel
  exact ⟨module, survey, use, bindings, library, after, parsed, eq_ok_of_toOption surveyed, mem, made,
    first.symm, second.symm, path, source ▸ checked⟩

end Graft
