import Graft.Proofs.Naming

set_option autoImplicit false

/-!
Decisions by their names. A specifier belongs to one decision only, and a library to the decisions whose
modules have one segment: types that differ in punctuation share theirs, and nothing shares the fallback.
-/
namespace Graft

namespace Naming

variable (settings : Settings)

theorem inputSpecifier_eq_iff {first second : String} :
    inputSpecifier settings first = inputSpecifier settings second ↔ first = second := by
  simp [inputSpecifier, ← String.toList_inj]

theorem librarySpecifier_ne_inputSpecifier (type : String) :
    librarySpecifier settings ≠ inputSpecifier settings type := by
  intro same
  -- Without the root they share, one is a word and the other has a colon.
  refine settings.library.ne_append (c := ':') (by decide) settings.inputs.text type ?_
  simpa [librarySpecifier, inputSpecifier, ← String.toList_inj] using same

theorem specifier_eq_iff {first second : Decision} :
    specifier settings first = specifier settings second ↔ first = second := by
  cases first with
  | static type =>
    cases second with
    | static other => simp [specifier, inputSpecifier_eq_iff]
    | dynamic => simpa [specifier] using (librarySpecifier_ne_inputSpecifier settings type).symm
  | dynamic =>
    cases second with
    | static other => simpa [specifier] using librarySpecifier_ne_inputSpecifier settings other
    | dynamic => simp

theorem inputModule_eq_iff {first second : String} :
    inputModule settings first = inputModule settings second ↔ segment first = segment second := by
  simp [inputModule, ← String.toList_inj]

theorem fallbackModule_ne_inputModule (type : String) :
    fallbackModule settings ≠ inputModule settings type := by
  intro same
  refine settings.library.ne_append (c := '.') (by decide) settings.inputs.text (segment type) ?_
  simpa [fallbackModule, inputModule, ← String.toList_inj] using same

/-- Specifiers tell all decisions apart. Libraries tell a known type from an unknown one, and two known
types as far as their segments do; so one specifier never stands for two libraries. -/
theorem separates_decisions :
    (∀ first second, specifier settings first = specifier settings second ↔ first = second) ∧
      (∀ type, library settings .dynamic ≠ library settings (.static type)) ∧
      (∀ first second, library settings (.static first) = library settings (.static second) ↔
        segment first = segment second) ∧
      ∀ first second, specifier settings first = specifier settings second →
        library settings first = library settings second := by
  refine ⟨fun first second => specifier_eq_iff settings, fun type same => ?_, fun first second => ?_,
    fun first second same => ?_⟩
  next => exact fallbackModule_ne_inputModule settings type (congrArg Export.source same)
  next => simp [library, inputModule_eq_iff]
  next => rw [(specifier_eq_iff settings).1 same]

/-- Two types that differ in punctuation only. -/
theorem separates_decisions_punctuated :
    specifier .standard (.static "date-time") ≠ specifier .standard (.static "date_time") ∧
      library .standard (.static "date-time") = library .standard (.static "date_time") ∧
      library .standard .dynamic ≠ library .standard (.static "date-time") := by
  obtain ⟨apart, fallback, shared, -⟩ := separates_decisions .standard
  exact ⟨fun same => absurd ((apart _ _).1 same) (by simp), (shared _ _).2 (by decide +kernel), fallback _⟩

end Naming

end Graft
