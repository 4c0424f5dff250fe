import Graft.Proofs.Grafting.Work
import Graft.Proofs.InputType

set_option autoImplicit false

/-!
What a grafting ends in: a fault, or the module with its configurations and its new imports.
-/
namespace Graft

/-- A use whose input type can be read. -/
def Use.IsReadable (use : Use) : Prop :=
  ∀ props ∈ use.call.props?, ∀ entries ∈ props.entries?, Entry.AreReadable entries

theorem Use.classify_ok_iff (settings : Settings) (use : Use) :
    (∃ classified, use.classify settings = .ok classified) ↔ use.IsReadable :=
  Graft.classify_ok_iff _ _ _

/-- What a successful grafting has done: `given` are the configurations, by the addresses of their
calls, and `lines` the new imports, which are written for `added`. -/
structure Grafts (settings : Settings) (file : Option String) (tally : Tally) (module : Module)
    (survey : Scope.Survey) (given : List (Address × Node)) (added : List (Export × String))
    (lines : List Node) : Prop where
  configures : Work.Configures settings ((Registry.ofModule module survey).1.known ++ added)
    (module.uses settings file survey) given
  result : (graft settings file tally module).result =
    .ok (if given.isEmpty then none else some ((module.inject given).insertLeading lines))
  configured : (graft settings file tally module).tally.configured = tally.configured + given.length
  skipped : (graft settings file tally module).tally.skipped =
    tally.skipped + ((module.uses settings file survey).filter Use.isSkipped).length
  lines : lines.map .ok = added.map fun entry => importLine entry.1 entry.2
  importable : ∀ entry ∈ added, entry.1.Importable ∧ isIdentifier entry.2 = true
  words : ∀ entry ∈ added, isKeyword entry.2 = false
  free : ∀ entry ∈ added, entry.2 ∉ module.root.identifiers
  distinct : (added.map (·.2)).Nodup

variable {settings : Settings} {file : Option String} {tally : Tally} {module : Module}
  {survey : Scope.Survey}

/-- The progress that the work on a module begins with. -/
def Progress.first (tally : Tally) (module : Module) (survey : Scope.Survey) : Progress :=
  ⟨tally, (Registry.ofModule module survey).2, (Registry.ofModule module survey).1, []⟩

theorem graft_eq (surveyed : Scope.survey module = .ok survey) {result : Except Fault Unit}
    {after : Progress} (ran : (Work.prepareAll settings (module.uses settings file survey)).outcome
      (.first tally module survey) = (result, after)) :
    graft settings file tally module =
      ⟨result.map fun _ => if after.configs.isEmpty then none
        else some ((module.inject after.configs).insertLeading after.registry.pending),
        after.tally, after.notices⟩ := by
  simp only [Work.outcome, Progress.first] at ran
  simp only [graft, surveyed, Registry.apply_eq, ran]

theorem graft_of_skipped (surveyed : Scope.survey module = .ok survey)
    (skipped : ∀ use ∈ module.uses settings file survey, use.isSkipped = true) :
    (graft settings file tally module).result = .ok none ∧
      (graft settings file tally module).tally.configured = tally.configured := by
  obtain ⟨after, ran, advances⟩ :=
    @Work.prepareAll_of_skipped settings (.first tally module survey) _ skipped
  have configs : after.configs = [] := advances.configs
  rw [graft_eq surveyed ran, configs]
  exact ⟨rfl, advances.configured⟩

/-- What the work on the uses has come to is what the grafting has done. -/
theorem Grafts.of_outcome (surveyed : Scope.survey module = .ok survey) {after : Progress}
    {added : List (Export × String)} {given : List (Address × Node)}
    (ran : (Work.prepareAll settings (module.uses settings file survey)).outcome
      (.first tally module survey) = (.ok (), after))
    (advances : Work.Advances (.first tally module survey) after added given
      ((module.uses settings file survey).filter Use.isSkipped).length)
    (configures : Work.Configures settings after.registry.known (module.uses settings file survey) given) :
    Grafts settings file tally module survey given added after.registry.pending := by
  have configs : after.configs = given := advances.configs
  have known : after.registry.known = (Registry.ofModule module survey).1.known ++ added :=
    advances.registry.known
  refine ⟨known ▸ configures, ?_, ?_, ?_, advances.registry.pending, advances.registry.importable,
    advances.registry.words, advances.registry.free, advances.registry.distinct⟩
  next => rw [graft_eq surveyed ran, configs]; rfl
  next => rw [graft_eq surveyed ran]; exact advances.configured
  next => rw [graft_eq surveyed ran]; exact advances.skipped

theorem graft_ok (wellFormed : module.wellFormed = true)
    (surveyed : Scope.survey module = .ok survey)
    (readable : ∀ use ∈ module.uses settings file survey, use.isSkipped = false → use.IsReadable) :
    ∃ given added lines, Grafts settings file tally module survey given added lines := by
  have sound := Registry.ofModule_sound wellFormed survey
  obtain ⟨after, added, given, ran, advances, configures⟩ :=
    @Work.prepareAll_ok settings (.first tally module survey) sound _ fun use mem kept =>
      (use.classify_ok_iff settings).2 (readable use mem kept)
  exact ⟨given, added, _, .of_outcome surveyed ran advances configures⟩

theorem graft_fault (wellFormed : module.wellFormed = true)
    (surveyed : Scope.survey module = .ok survey) {use : Use}
    (mem : use ∈ module.uses settings file survey) (kept : use.isSkipped = false)
    (unreadable : ¬ use.IsReadable) :
    ∃ fault, (graft settings file tally module).result = .error fault := by
  have sound := Registry.ofModule_sound wellFormed survey
  rw [← use.classify_ok_iff settings] at unreadable
  cases known : use.classify settings with
  | ok classified => exact absurd ⟨classified, known⟩ unreadable
  | error cause =>
    obtain ⟨fault, after, ran⟩ :=
      @Work.prepareAll_fault settings _ (.first tally module survey) sound _ mem kept cause known
    exact ⟨fault, by rw [graft_eq surveyed ran]; rfl⟩

theorem graft_unsurveyed {fault : Fault} (surveyed : Scope.survey module = .error fault) :
    (graft settings file tally module).result = .error fault := by
  simp only [graft, surveyed]

/-- A successful grafting has surveyed its module and read every type that it needed. -/
theorem grafts_of_ok (wellFormed : module.wellFormed = true) {written : Option Module}
    (done : (graft settings file tally module).result = .ok written) :
    ∃ survey, Scope.survey module = .ok survey ∧
      (∀ use ∈ module.uses settings file survey, use.isSkipped = false → use.IsReadable) ∧
      ∃ given added lines, Grafts settings file tally module survey given added lines := by
  cases surveyed : Scope.survey module with
  | error fault => rw [graft_unsurveyed surveyed] at done; exact absurd done (by simp)
  | ok survey =>
    have readable : ∀ use ∈ module.uses settings file survey, use.isSkipped = false → use.IsReadable := by
      refine fun use mem kept => Classical.byContradiction fun unreadable => ?_
      obtain ⟨fault, failed⟩ := graft_fault wellFormed surveyed mem kept unreadable
      rw [failed] at done
      exact absurd done (by simp)
    exact ⟨survey, rfl, readable, graft_ok wellFormed surveyed readable⟩

end Graft
