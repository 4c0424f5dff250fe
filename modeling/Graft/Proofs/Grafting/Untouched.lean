import Graft.Proofs.Grafting.Report
import Graft.Proofs.Lossless.Source
import Graft.Proofs.Optimize

set_option autoImplicit false

/-!
Sources in which nothing is configured. Their text is printed from the tree too, so that it comes back
as it was exactly if reading and printing lose nothing of it.
-/
namespace Graft

variable {settings : Settings} {file : Option String} {code : String} {outcome : Outcome}

/-- Where nothing is configured, the module stays as it is. -/
theorem optimize_untouched {module : Module} (parsed : Module.parse? code = some module)
    (done : (optimize settings file code).1 = .ok outcome) (untouched : outcome.configured = 0) :
    outcome.code = module.source := by
  have workable := isWorkable_of_optimize done parsed
  rw [optimize_parsed parsed workable.flawless] at done
  cases made : (graft settings file {} module).result with
  | error fault => rw [made] at done; cases done
  | ok written =>
    rw [made] at done
    obtain rfl := Except.ok.inj done
    obtain ⟨survey, given, lines, -, reports⟩ :=
      graft_reports (Module.wellFormed_of_parse? parsed) made
    have same := reports.same.2 untouched
    rw [made] at same
    cases same
    rfl

/-- A source in which nothing is configured comes back character for character exactly if no byte
order mark stands in front, every line begins with the margin of its block, the footer is kept, and
the last line ends as the module's other lines can. -/
theorem optimize_untouched_iff {module : Module} (parsed : Module.parse? code = some module)
    (done : (optimize settings file code).1 = .ok outcome) (untouched : outcome.configured = 0) :
    outcome.code = code ↔ Verbatim code := by
  rw [optimize_untouched parsed done untouched]
  exact Module.source_eq_iff parsed

theorem optimize_untouched_mixed_breaks : ∃ module outcome,
    Module.parse? "f(\n  x)  # y\r\n\r# z" = some module ∧
      (optimize .standard none "f(\n  x)  # y\r\n\r# z").1 = .ok outcome ∧ outcome.configured = 0 ∧
        Verbatim "f(\n  x)  # y\r\n\r# z" ∧ outcome.code = "f(\n  x)  # y\r\n\r# z" := by
  have reads : (Module.parse? "f(\n  x)  # y\r\n\r# z").isSome = true := by decide +kernel
  have returns : (optimize .standard none "f(\n  x)  # y\r\n\r# z").1.toOption.any
      (·.configured == 0) = true := by
    decide +kernel
  have verbatim : Verbatim "f(\n  x)  # y\r\n\r# z" := by decide +kernel
  obtain ⟨module, parsed⟩ := Option.isSome_iff_exists.1 reads
  cases done : (optimize .standard none "f(\n  x)  # y\r\n\r# z").1 with
  | error fault => rw [done] at returns; cases returns
  | ok outcome =>
    rw [done] at returns
    have untouched : outcome.configured = 0 := by simpa [Except.toOption] using returns
    exact ⟨module, outcome, parsed, rfl, untouched, verbatim,
      (optimize_untouched_iff parsed done untouched).2 verbatim⟩

/-- The form feed in front of a line is lost, although no call is there to be configured. -/
theorem optimize_loses_form_feed : ¬ ∀ (settings : Settings) (file : Option String) (code : String)
    (module : Module) (outcome : Outcome), Module.parse? code = some module →
      (optimize settings file code).1 = .ok outcome → outcome.configured = 0 →
        outcome.code = code := by
  intro all
  have reads : (Module.parse? "x\n\x0cy\n").isSome = true := by decide +kernel
  have returns : (optimize .standard none "x\n\x0cy\n").1.toOption.any
      (fun outcome => outcome.configured == 0 && outcome.code == "x\ny\n") = true := by
    decide +kernel
  obtain ⟨module, parsed⟩ := Option.isSome_iff_exists.1 reads
  cases done : (optimize .standard none "x\n\x0cy\n").1 with
  | error fault => rw [done] at returns; cases returns
  | ok outcome =>
    rw [done] at returns
    simp only [Except.toOption, Option.any_some, Bool.and_eq_true, beq_iff_eq] at returns
    have same := all .standard none _ module outcome parsed done returns.1
    rw [returns.2] at same
    exact absurd same (by decide)

end Graft
