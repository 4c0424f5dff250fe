import Graft.Optimize
import Graft.Proofs.Grafting.Result

set_option autoImplicit false

/-!
Which sources are optimized. Reading, the survey of scopes and the reading of types can fail; nothing
else can, and every outcome says whether its source was read.
-/
namespace Graft

/-- What an outcome has to say about its source. -/
structure Outcome.Answers (outcome : Outcome) (code : String) : Prop where
  parsed : ∀ module, Module.parse? code = some module →
    outcome.success = true ∧ outcome.errors = []
  unparsed : Module.parse? code = none →
    outcome.success = false ∧ outcome.code = code ∧ outcome.configured = 0 ∧ outcome.skipped = 0 ∧
      ∃ error, outcome.errors = [error]

/-- A module that can be optimized: it has no flaws, its scopes can be surveyed, and the types of the
uses that are configured can be read. -/
structure Module.IsWorkable (settings : Settings) (file : Option String) (module : Module) : Prop where
  flawless : Node.flaw?.flawAmong module.body = none
  surveyed : ∃ survey, Scope.survey module = .ok survey ∧
    ∀ use ∈ module.uses settings file survey, use.isSkipped = false → use.IsReadable

variable {settings : Settings} {file : Option String} {code : String}

theorem optimize_unparsed (unparsed : Module.parse? code = none) :
    (optimize settings file code).1 =
      .ok { code, errors := [parseError file], success := false } := by
  simp [optimize, Module.read, unparsed]

theorem optimize_flawed {module : Module} (parsed : Module.parse? code = some module) {flaw : Flaw}
    (flawed : Node.flaw?.flawAmong module.body = some flaw) :
    (optimize settings file code).1 = .error (.flawed flaw) := by
  simp [optimize, Module.read, parsed, flawed]

theorem optimize_parsed {module : Module} (parsed : Module.parse? code = some module)
    (flawless : Node.flaw?.flawAmong module.body = none) :
    (optimize settings file code).1 = (graft settings file {} module).result.map fun written =>
      { code := (written.getD module).source
        configured := (graft settings file {} module).tally.configured
        skipped := (graft settings file {} module).tally.skipped
        warnings := (graft settings file {} module).tally.warnings } := by
  simp [optimize, Module.read, parsed, flawless]

theorem optimize_answers {outcome : Outcome} (done : (optimize settings file code).1 = .ok outcome) :
    outcome.Answers code := by
  cases parsed : Module.parse? code with
  | none =>
    rw [optimize_unparsed parsed] at done
    obtain rfl := Except.ok.inj done
    exact ⟨by simp [parsed], fun _ => ⟨rfl, rfl, rfl, rfl, _, rfl⟩⟩
  | some module =>
    cases flaws : Node.flaw?.flawAmong module.body with
    | some flaw => rw [optimize_flawed parsed flaws] at done; exact absurd done (by simp)
    | none =>
      rw [optimize_parsed parsed flaws] at done
      obtain ⟨written, -, rfl⟩ := map_eq_ok.1 done
      exact ⟨fun _ _ => ⟨rfl, rfl⟩, by simp [parsed]⟩

theorem isWorkable_of_optimize {outcome : Outcome}
    (done : (optimize settings file code).1 = .ok outcome) {module : Module}
    (parsed : Module.parse? code = some module) : module.IsWorkable settings file := by
  cases flaws : Node.flaw?.flawAmong module.body with
  | some flaw => rw [optimize_flawed parsed flaws] at done; exact absurd done (by simp)
  | none =>
    rw [optimize_parsed parsed flaws] at done
    obtain ⟨written, made, -⟩ := map_eq_ok.1 done
    obtain ⟨survey, surveyed, readable, -⟩ := grafts_of_ok (Module.wellFormed_of_parse? parsed) made
    exact ⟨flaws, survey, surveyed, readable⟩

theorem optimize_of_isWorkable {module : Module} (parsed : Module.parse? code = some module)
    (workable : module.IsWorkable settings file) :
    ∃ outcome, (optimize settings file code).1 = .ok outcome := by
  obtain ⟨flawless, survey, surveyed, readable⟩ := workable
  obtain ⟨given, added, lines, grafts⟩ :=
    @graft_ok settings file {} module survey (Module.wellFormed_of_parse? parsed) surveyed readable
  exact ⟨_, by rw [optimize_parsed parsed flawless, grafts.result]; rfl⟩

end Graft
