import Graft.Proofs.Grafting.Effect
import Graft.Proofs.Grafting.Written
import Graft.Proofs.Tree.Order

set_option autoImplicit false

/-!
What graftings report: two counters and the warnings, which go on from one module to the next, and the
records of the log. They agree with what was done to the modules.
-/
namespace Graft

open Node

theorem Registry.quiet_ofModule (module : Module) (survey : Scope.Survey) :
    (ofModule module survey).2.filter Notice.isWarning = [] := by
  refine List.filter_eq_nil_iff.2 fun notice mem => ?_
  obtain ⟨candidate, -, rfl⟩ := List.mem_map.1 mem
  exact Bool.false_ne_true

variable {settings : Settings} {file : Option String}

/-- What comes of a module does not depend on the modules before it. -/
theorem graft_blind (tally other : Tally) (module : Module) :
    (graft settings file tally module).result = (graft settings file other module).result := by
  cases surveyed : Scope.survey module with
  | error fault => rw [graft_unsurveyed surveyed, graft_unsurveyed surveyed]
  | ok survey =>
    obtain ⟨same, alike⟩ := Work.Blind.prepareAll settings (module.uses settings file survey)
      (.first tally module survey) (.first other module survey) ⟨rfl, rfl⟩
    cases one : (Work.prepareAll settings (module.uses settings file survey)).outcome
        (.first tally module survey) with
    | mk result after =>
      cases two : (Work.prepareAll settings (module.uses settings file survey)).outcome
          (.first other module survey) with
      | mk again later =>
        simp only [one, two] at same alike
        rw [graft_eq surveyed one, graft_eq surveyed two]
        simp only [same, alike.registry, alike.configs]

theorem Module.uses_ascend (module : Module) (survey : Scope.Survey) :
    ((module.uses settings file survey).map Use.address).Pairwise (· < ·) := by
  rw [List.pairwise_map, Module.uses, List.pairwise_filterMap]
  refine module.root.walk_ascends.imp fun less use made other again => ?_
  have place {located : Located} {use : Use}
      (made : Use.ofNode? settings file module survey located = some use) : use.address = located.1 := by
    simp only [Use.ofNode?, Option.bind_eq_bind, Option.bind_eq_some_iff] at made
    obtain ⟨call, -, factory, -, made⟩ := made
    rw [← Option.some.inj made]
  rwa [place made, place again]

/-- What a use that is given a configuration becomes. -/
theorem Grafts.attached {tally : Tally} {module : Module} {survey : Scope.Survey}
    {given : List (Address × Node)} {added : List (Export × String)} {lines : List Node}
    (wellFormed : module.wellFormed = true)
    (grafts : Grafts settings file tally module survey given added lines) {use : Use}
    (mem : use ∈ module.uses settings file survey) (kept : use.isSkipped = false) :
    ∃ config, given.lookup use.address = some config ∧
      ((module.inject given).insertLeading lines).root.part?
          (module.placed given lines.length use.address) =
        some ((use.call.injected given use.address).attach config).toNode := by
  obtain ⟨config, found⟩ := grafts.configures.lookup_of_mem mem kept
  obtain ⟨part, called, -⟩ := Module.mem_uses mem
  have is := Call.isA_of_ofNode? called
  refine ⟨config, found, ?_⟩
  rw [Module.part?_placed wellFormed given lines part is,
    inject_of_some _ _ (wellFormed_part? (Module.wellFormed_root wellFormed) part) called found]

/-- The advice about a module. -/
def Module.advice (settings : Settings) (file : Option String) (module : Module) : List String :=
  match Scope.survey module with
  | .ok survey => (module.uses settings file survey).filterMap (Use.advice settings)
  | .error _ => []

/-- What one grafting does and reports: every use that is not skipped has got its configuration. -/
structure Reports (settings : Settings) (file : Option String) (before : Tally) (module : Module)
    (survey : Scope.Survey) (given : List (Address × Node)) (lines : List Node)
    (grafting : Grafting) : Prop where
  result : grafting.result =
    .ok (if given.isEmpty then none else some ((module.inject given).insertLeading lines))
  addresses : given.map (·.1) =
    ((module.uses settings file survey).filter (!·.isSkipped)).map Use.address
  attached : ∀ use ∈ module.uses settings file survey, use.isSkipped = false →
    ∃ config, given.lookup use.address = some config ∧
      ((module.inject given).insertLeading lines).root.part?
          (module.placed given lines.length use.address) =
        some ((use.call.injected given use.address).attach config).toNode
  configured : grafting.tally.configured = before.configured + given.length
  skipped : grafting.tally.skipped =
    before.skipped + ((module.uses settings file survey).filter Use.isSkipped).length
  same : grafting.result = .ok none ↔ grafting.tally.configured = before.configured
  warnings : grafting.tally.warnings = before.warnings ++ module.advice settings file
  notices : grafting.notices.filter Notice.isWarning = (module.advice settings file).map Notice.warning

/-- The imports of a grafting are those that its uses need and the module lacks, in the order of the
first need; and its advice is told in both ways. -/
theorem grafts_of_ok_in_order {tally : Tally} {module : Module} (wellFormed : module.wellFormed = true)
    {written : Option Module} (done : (graft settings file tally module).result = .ok written) :
    ∃ survey given added lines, Scope.survey module = .ok survey ∧
      Grafts settings file tally module survey given added lines ∧
      added.map (·.1) = Settings.distinct (((module.uses settings file survey).flatMap
        (Use.needs settings)).filter (Registry.ofModule module survey).1.Lacks) ∧
      (graft settings file tally module).tally.warnings = tally.warnings ++ module.advice settings file ∧
      (graft settings file tally module).notices.filter Notice.isWarning =
        (module.advice settings file).map Notice.warning := by
  obtain ⟨survey, surveyed, readable, -⟩ := grafts_of_ok wellFormed done
  have sound := Registry.ofModule_sound wellFormed survey
  obtain ⟨after, added, given, ran, advances, configures⟩ :=
    @Work.prepareAll_ok settings (.first tally module survey) sound _ fun use mem kept =>
      (use.classify_ok_iff settings).2 (readable use mem kept)
  have seen := Work.Leaves.prepareAll settings (module.uses settings file survey) _ _ _ ran
  have advised : module.advice settings file =
      (module.uses settings file survey).filterMap (Use.advice settings) := by
    rw [Module.advice, surveyed]
  refine ⟨survey, given, added, _, surveyed, .of_outcome surveyed ran advances configures, ?_, ?_, ?_⟩
  next =>
    obtain ⟨more, accounts⟩ := seen.requests (Registry.ofModule module survey).1 [] []
      ⟨(List.append_nil _).symm, rfl, .nil⟩
    -- Both say what the registry knows now and did not know at first.
    simp only [List.nil_append] at accounts
    obtain rfl : added = more :=
      List.append_cancel_left (advances.registry.known.symm.trans accounts.known)
    exact accounts.firsts
  next =>
    rw [graft_eq surveyed ran, advised]
    exact seen.warnings
  next =>
    obtain ⟨notices, noted, records⟩ := seen.records
    rw [graft_eq surveyed ran, advised]
    simp only [noted, List.filter_append, records]
    rw [Progress.first, Registry.quiet_ofModule, List.nil_append]

theorem graft_reports {tally : Tally} {module : Module} (wellFormed : module.wellFormed = true)
    {written : Option Module} (done : (graft settings file tally module).result = .ok written) :
    ∃ survey given lines, Scope.survey module = .ok survey ∧
      Reports settings file tally module survey given lines (graft settings file tally module) := by
  obtain ⟨survey, given, added, lines, surveyed, grafts, -, warnings, notices⟩ :=
    grafts_of_ok_in_order wellFormed done
  refine ⟨survey, given, lines, surveyed, grafts.result, grafts.configures.addresses,
    fun use mem kept => grafts.attached wellFormed mem kept, grafts.configured, grafts.skipped,
    ?_, warnings, notices⟩
  rw [grafts.result, grafts.configured]
  cases given <;> simp

/-- Graftings of modules in turn, each with the tally that it began with. -/
def graftAll (settings : Settings) (file : Option String) : Tally → List Module → List (Tally × Grafting)
  | _, [] => []
  | tally, module :: rest =>
    let grafting := graft settings file tally module
    (tally, grafting) :: graftAll settings file grafting.tally rest

/-- The tally after some graftings. -/
def lastTally (tally : Tally) (run : List (Tally × Grafting)) : Tally :=
  (run.getLast?.map fun entry => entry.2.tally).getD tally

/-- Over modules in turn, each comes out as it would alone, and the counters, the warnings and the
log add up to what was done. -/
theorem graftAll_reports (tally : Tally) (modules : List Module)
    (wellFormed : ∀ module ∈ modules, module.wellFormed = true)
    (done : ∀ entry ∈ graftAll settings file tally modules, ∃ written, entry.2.result = .ok written) :
    List.Forall₂ (fun module entry =>
        entry.2.result = (graft settings file {} module).result ∧
          ∃ survey given lines, Scope.survey module = .ok survey ∧
            ((module.uses settings file survey).map Use.address).Pairwise (· < ·) ∧
              Reports settings file entry.1 module survey given lines entry.2)
        modules (graftAll settings file tally modules) ∧
      (lastTally tally (graftAll settings file tally modules)).warnings =
        tally.warnings ++ modules.flatMap (Module.advice settings file) ∧
      ((graftAll settings file tally modules).flatMap (·.2.notices)).filter Notice.isWarning =
        (modules.flatMap (Module.advice settings file)).map Notice.warning := by
  induction modules generalizing tally with
  | nil => exact ⟨.nil, by simp [lastTally, graftAll], rfl⟩
  | cons module rest ih =>
    simp only [graftAll, List.mem_cons, forall_eq_or_imp] at wellFormed done
    obtain ⟨written, first⟩ := done.1
    obtain ⟨survey, given, lines, surveyed, reports⟩ := graft_reports wellFormed.1 first
    obtain ⟨each, warnings, notices⟩ := ih _ wellFormed.2 done.2
    refine ⟨.cons ⟨graft_blind _ _ _, survey, given, lines, surveyed, module.uses_ascend survey, reports⟩
      each, ?_, ?_⟩
    next =>
      have last : lastTally tally (graftAll settings file tally (module :: rest)) =
          lastTally (graft settings file tally module).tally
            (graftAll settings file (graft settings file tally module).tally rest) := by
        rw [graftAll, lastTally, lastTally, List.getLast?_cons]
        cases (graftAll settings file (graft settings file tally module).tally rest).getLast? <;> rfl
      rw [last, warnings, reports.warnings, List.flatMap_cons, List.append_assoc]
    next =>
      rw [graftAll, List.flatMap_cons, List.filter_append, reports.notices, notices, List.flatMap_cons,
        List.map_append]

/-- Of two modules the first has a use of an unknown type and a use with unpacking, in this order. -/
theorem graftAll_two_modules : ∃ first second,
    Module.parse?
        "from formkit.vue import FormKit\nFormKit(el, \x7b\"type\": kind\x7d)\nFormKit(*els)\n" = some first ∧
      Module.parse? "from formkit.vue import FormKit\nFormKit(el)\n" = some second ∧
        let run := graftAll .standard none {} [first, second]
        let advice := ["[FormKit de-opt] <module>:2:0: Input uses bound type prop, skipping optimization.",
          "[FormKit de-opt] <module>:3:0: FormKit uses argument unpacking, skipping optimization."]
        (∀ entry ∈ run, ∃ written, entry.2.result = .ok (some written)) ∧
          (lastTally {} run).warnings = advice ∧
            (run.flatMap (·.2.notices)).filter Notice.isWarning = advice.map Notice.warning := by
  let advice := ["[FormKit de-opt] <module>:2:0: Input uses bound type prop, skipping optimization.",
    "[FormKit de-opt] <module>:3:0: FormKit uses argument unpacking, skipping optimization."]
  have check : ((Module.parse?
      "from formkit.vue import FormKit\nFormKit(el, \x7b\"type\": kind\x7d)\nFormKit(*els)\n").bind fun first =>
        (Module.parse? "from formkit.vue import FormKit\nFormKit(el)\n").map fun second =>
          ((graftAll .standard none {} [first, second]).all fun entry =>
            entry.2.result.toOption.join.isSome) &&
              [first, second].flatMap (Module.advice .standard none) == advice) = some true := by
    decide +kernel
  obtain ⟨first, one, check⟩ := Option.bind_eq_some_iff.1 check
  obtain ⟨second, two, check⟩ := Option.map_eq_some_iff.1 check
  simp only [Bool.and_eq_true, List.all_eq_true, beq_iff_eq] at check
  have done : ∀ entry ∈ graftAll .standard none {} [first, second],
      ∃ written, entry.2.result = .ok (some written) := by
    intro entry mem
    have some := check.1 entry mem
    cases result : entry.2.result with
    | error fault => rw [result] at some; exact absurd some (by simp [Except.toOption])
    | ok written =>
      cases written with
      | none => rw [result] at some; exact absurd some (by simp [Except.toOption])
      | some written => exact ⟨written, rfl⟩
  obtain ⟨-, warnings, notices⟩ := graftAll_reports {} [first, second]
    (by simp [Module.wellFormed_of_parse? one, Module.wellFormed_of_parse? two])
    fun entry mem => (done entry mem).elim fun written same => ⟨some written, same⟩
  rw [check.2] at warnings notices
  exact ⟨first, second, one, two, done, warnings, notices⟩

end Graft
