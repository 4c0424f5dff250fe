import Graft.Proofs.Grafting.Report

set_option autoImplicit false

/-!
The tally over graftings some of which fail. A use is counted when its configuration is made, and
what has been counted stays when a later use of the same module fails.
-/
namespace Graft

/-- A use that the work gets past. -/
def Use.isPassed (settings : Settings) (use : Use) : Bool :=
  use.isSkipped || (use.classify settings).isOk

/-- The uses that the work on a module gets past before it fails, or all of them. -/
def Module.passed (settings : Settings) (file : Option String) (module : Module) : List Use :=
  match Scope.survey module with
  | .ok survey => (module.uses settings file survey).takeWhile (Use.isPassed settings)
  | .error _ => []

/-- A tally that goes on over some uses. -/
def Tally.over (settings : Settings) (tally : Tally) (uses : List Use) : Tally where
  configured := tally.configured + (uses.filter (!·.isSkipped)).length
  skipped := tally.skipped + (uses.filter Use.isSkipped).length
  warnings := tally.warnings ++ uses.filterMap (Use.advice settings)

variable {settings : Settings} {file : Option String}

theorem Tally.over_nil (tally : Tally) : tally.over settings [] = tally := by
  simp [Tally.over]

theorem Tally.over_append (tally : Tally) (first rest : List Use) :
    tally.over settings (first ++ rest) = (tally.over settings first).over settings rest := by
  simp [Tally.over, Nat.add_assoc]

-- Every use adds to one of the two counters.
theorem Tally.over_eq_iff (tally : Tally) (uses : List Use) :
    tally.over settings uses = tally ↔ uses = [] := by
  constructor
  next =>
    intro same
    have configured := congrArg Tally.configured same
    have skipped := congrArg Tally.skipped same
    simp only [Tally.over] at configured skipped
    rw [← List.length_eq_zero_iff, List.length_eq_length_filter_add Use.isSkipped]
    omega
  next =>
    rintro rfl
    exact tally.over_nil

namespace Work

theorem prepareAll_append (settings : Settings) (first rest : List Use) :
    prepareAll settings (first ++ rest) =
      (do prepareAll settings first; prepareAll settings rest) := by
  induction first with
  | nil => rfl
  | cons use others ih =>
    simp only [List.cons_append, prepareAll, ih, bind_assoc]
    congr 1
    funext found
    cases found <;> rfl

/-- The work goes over the uses that it gets past, and the next one changes nothing. -/
theorem prepareAll_tally {before : Progress} (sound : before.registry.Sound) (uses : List Use) :
    ((prepareAll settings uses).outcome before).2.tally =
      before.tally.over settings (uses.takeWhile (Use.isPassed settings)) := by
  have readable : ∀ use ∈ uses.takeWhile (Use.isPassed settings), use.isSkipped = false →
      ∃ classified, use.classify settings = .ok classified := by
    intro use mem kept
    have passed := List.all_eq_true.1 List.all_takeWhile use mem
    rw [Use.isPassed, kept, Bool.false_or] at passed
    cases known : use.classify settings with
    | ok classified => exact ⟨classified, rfl⟩
    | error fault => rw [known] at passed; exact absurd passed Bool.false_ne_true
  obtain ⟨after, added, given, ran, advances, configures⟩ := @prepareAll_ok settings before sound _ readable
  have counted : after.tally = before.tally.over settings (uses.takeWhile (Use.isPassed settings)) := by
    have seen := Leaves.prepareAll settings _ _ _ _ ran
    have lengths := congrArg List.length configures.addresses
    rw [List.length_map, List.length_map] at lengths
    rw [Tally.over, ← lengths, ← advances.configured, ← advances.skipped]
    exact congrArg (Tally.mk _ _) seen.warnings
  rw [← counted]
  have whole : uses = uses.takeWhile (Use.isPassed settings) ++ uses.dropWhile (Use.isPassed settings) :=
    List.takeWhile_append_dropWhile.symm
  rw [whole, prepareAll_append, outcome_bind, ran]
  cases left : uses.dropWhile (Use.isPassed settings) with
  | nil => rfl
  | cons use rest =>
    -- The first use that is not passed has a type that cannot be read, and the work ends there.
    have stopped : use.isPassed settings = false := by
      have head := List.head?_dropWhile_not (Use.isPassed settings) uses
      rw [left] at head
      simpa using head
    rw [Use.isPassed, Bool.or_eq_false_iff] at stopped
    cases known : use.classify settings with
    | ok classified => rw [known] at stopped; exact absurd stopped.2 (by simp [Except.isOk, Except.toBool])
    | error fault => simp only [prepareAll, outcome_bind, prepare_fault stopped.1 known]

end Work

/-- Whether it fails or not, a grafting counts the uses that it gets past. -/
theorem graft_tally {module : Module} (wellFormed : module.wellFormed = true) (tally : Tally) :
    (graft settings file tally module).tally = tally.over settings (module.passed settings file) := by
  unfold Module.passed
  cases surveyed : Scope.survey module with
  | error fault =>
    simp only [graft, surveyed]
    exact tally.over_nil.symm
  | ok survey =>
    have counted := @Work.prepareAll_tally settings (.first tally module survey)
      (Registry.ofModule_sound wellFormed survey) (module.uses settings file survey)
    cases ran : (Work.prepareAll settings (module.uses settings file survey)).outcome
        (.first tally module survey) with
    | mk result after =>
      rw [ran] at counted
      rw [graft_eq surveyed ran]
      exact counted

/-- The work on a module that is returned gets past all its uses. -/
theorem passed_eq {module : Module} (wellFormed : module.wellFormed = true) {tally : Tally}
    {survey : Scope.Survey} (surveyed : Scope.survey module = .ok survey) {written : Option Module}
    (done : (graft settings file tally module).result = .ok written) :
    module.passed settings file = module.uses settings file survey := by
  obtain ⟨again, same, readable, -⟩ := grafts_of_ok wellFormed done
  obtain rfl : survey = again := Except.ok.inj (surveyed.symm.trans same)
  have each : ∀ use ∈ module.uses settings file survey, use.isPassed settings = true := by
    intro use mem
    cases kept : use.isSkipped with
    | true => rw [Use.isPassed, kept, Bool.true_or]
    | false =>
      obtain ⟨classified, known⟩ := (use.classify_ok_iff settings).2 (readable use mem kept)
      rw [Use.isPassed, known]
      exact Bool.or_true _
  rw [Module.passed, surveyed]
  simpa using @List.takeWhile_append_of_pos _ _ _ [] each

/-- The uses of a module that are counted as configured. -/
def Module.counted (settings : Settings) (file : Option String) (module : Module) : List Use :=
  (module.passed settings file).filter (!·.isSkipped)

/-- The uses that have a configuration in the module that comes out, if one does. -/
def Module.received (settings : Settings) (file : Option String) (module : Module) : List Use :=
  match (graft settings file {} module).result with
  | .ok _ => module.counted settings file
  | .error _ => []

/-- What one grafting makes of the tally. -/
structure Counts (settings : Settings) (file : Option String) (before : Tally) (module : Module)
    (grafting : Grafting) : Prop where
  tally : grafting.tally = before.over settings (module.passed settings file)
  /-- In a module that is returned, all that was counted has its configuration. -/
  returned : ∀ written, grafting.result = .ok written →
    ∃ survey given lines, Scope.survey module = .ok survey ∧
      Reports settings file before module survey given lines grafting ∧
        given.map (·.1) = (module.received settings file).map Use.address
  /-- A failure keeps the tally only if it comes with the first use, or before. -/
  failed : ∀ fault, grafting.result = .error fault →
    module.received settings file = [] ∧
      (grafting.tally = before ↔ module.passed settings file = [])

theorem graft_counts {module : Module} (wellFormed : module.wellFormed = true) (tally : Tally) :
    Counts settings file tally module (graft settings file tally module) where
  tally := graft_tally wellFormed tally
  returned written done := by
    obtain ⟨survey, given, lines, surveyed, reports⟩ := graft_reports wellFormed done
    refine ⟨survey, given, lines, surveyed, reports, ?_⟩
    have alone := (graft_blind tally {} module).symm.trans done
    rw [reports.addresses, Module.received, alone, Module.counted, passed_eq wellFormed surveyed done]
  failed fault failed := by
    have alone := (graft_blind tally {} module).symm.trans failed
    rw [Module.received, alone, graft_tally wellFormed]
    exact ⟨rfl, tally.over_eq_iff _⟩

theorem lastTally_cons (tally : Tally) (entry : Tally × Grafting) (run : List (Tally × Grafting)) :
    lastTally tally (entry :: run) = lastTally entry.2.tally run := by
  rw [lastTally, lastTally, List.getLast?_cons]
  cases run.getLast? <;> rfl

/-- A module that is worked on in vain has lost what it counted. -/
theorem Module.length_received_le (module : Module) :
    (module.received settings file).length ≤ (module.counted settings file).length := by
  unfold Module.received
  split
  next => exact Nat.le_refl _
  next => exact Nat.zero_le _

theorem Module.length_received_eq_iff (module : Module) :
    (module.received settings file).length = (module.counted settings file).length ↔
      ∀ fault, (graft settings file {} module).result = .error fault → module.counted settings file = [] := by
  unfold Module.received
  cases (graft settings file {} module).result with
  | ok written => exact ⟨fun _ _ failed => absurd failed (by simp), fun _ => rfl⟩
  | error fault =>
    refine ⟨fun same _ _ => List.length_eq_zero_iff.1 same.symm, fun lost => ?_⟩
    rw [lost fault rfl]

-- What one module has received cannot make up for what another has lost.
theorem received_of_modules (modules : List Module) :
    (modules.flatMap (Module.received settings file)).length ≤
        (modules.flatMap (Module.counted settings file)).length ∧
      ((modules.flatMap (Module.counted settings file)).length =
          (modules.flatMap (Module.received settings file)).length ↔
        ∀ module ∈ modules, (module.received settings file).length =
          (module.counted settings file).length) := by
  induction modules with
  | nil => simp
  | cons module rest ih =>
    have own := @Module.length_received_le settings file module
    simp only [List.flatMap_cons, List.length_append, List.forall_mem_cons, ← ih.2]
    omega

/-- Over modules in turn, failures included, the tally goes over all that the work got past. It
counts what the returned modules have received if no module failed after it had counted a use. -/
theorem graftAll_counts (tally : Tally) (modules : List Module)
    (wellFormed : ∀ module ∈ modules, module.wellFormed = true) :
    let run := graftAll settings file tally modules
    List.Forall₂ (fun module entry => Counts settings file entry.1 module entry.2) modules run ∧
      lastTally tally run = tally.over settings (modules.flatMap (Module.passed settings file)) ∧
        ((lastTally tally run).configured =
            tally.configured + (modules.flatMap (Module.received settings file)).length ↔
          ∀ module ∈ modules, ∀ fault, (graft settings file {} module).result = .error fault →
            module.counted settings file = []) := by
  have last : lastTally tally (graftAll settings file tally modules) =
      tally.over settings (modules.flatMap (Module.passed settings file)) := by
    induction modules generalizing tally with
    | nil => exact tally.over_nil.symm
    | cons module rest ih =>
      rw [graftAll, lastTally_cons, ih _ fun other mem => wellFormed other (by simp [mem]),
        graft_tally (wellFormed module (by simp)), ← Tally.over_append, List.flatMap_cons]
  refine ⟨?_, last, ?_⟩
  next =>
    clear last
    induction modules generalizing tally with
    | nil => exact .nil
    | cons module rest ih =>
      exact .cons (graft_counts (wellFormed module (by simp)) tally)
        (ih _ fun other mem => wellFormed other (by simp [mem]))
  next =>
    have counted : ((modules.flatMap (Module.passed settings file)).filter (!·.isSkipped)).length =
        (modules.flatMap (Module.counted settings file)).length := by
      rw [List.filter_flatMap]
      rfl
    rw [last, Tally.over, counted, Nat.add_left_cancel_iff]
    simp only [← Module.length_received_eq_iff]
    exact (received_of_modules modules).2

/-- The second use of the module cannot be read, so the configuration of the first is lost. -/
theorem graft_counts_lost_use : ∃ module,
    Module.parse? "from formkit.vue import FormKit\nFormKit(el)\nFormKit(el, \x7b\"type\": \"\\x1\"\x7d)\n" =
        some module ∧
      (∃ fault, (graft .standard none {} module).result = .error fault) ∧
        (graft .standard none {} module).tally = ⟨1, 0, []⟩ := by
  have check : (Module.parse?
      "from formkit.vue import FormKit\nFormKit(el)\nFormKit(el, \x7b\"type\": \"\\x1\"\x7d)\n").map
        (fun module => ((graft .standard none {} module).result.isOk,
          (graft .standard none {} module).tally)) = some (false, ⟨1, 0, []⟩) := by
    decide +kernel
  obtain ⟨module, parsed, check⟩ := Option.map_eq_some_iff.1 check
  obtain ⟨fails, tally⟩ := Prod.mk.inj check
  refine ⟨module, parsed, ?_, tally⟩
  cases result : (graft .standard none {} module).result with
  | error fault => exact ⟨fault, rfl⟩
  | ok written => rw [result] at fails; exact absurd fails (by simp [Except.isOk, Except.toBool])

/-- The module that fails has counted nothing, so the tally agrees with the module that is returned. -/
theorem graftAll_counts_two_modules : ∃ first second,
    Module.parse? "from formkit.vue import FormKit\nFormKit(el, \x7b\"type\": \"\\x1\"\x7d)\n" =
        some first ∧
      Module.parse? "from formkit.vue import FormKit\nFormKit(el)\n" = some second ∧
        (∀ module ∈ [first, second], module.wellFormed = true) ∧
          (lastTally {} (graftAll .standard none {} [first, second])).configured =
            ([first, second].flatMap (Module.received .standard none)).length := by
  have check : ((Module.parse?
      "from formkit.vue import FormKit\nFormKit(el, \x7b\"type\": \"\\x1\"\x7d)\n").bind fun first =>
        (Module.parse? "from formkit.vue import FormKit\nFormKit(el)\n").map fun second =>
          (first.counted .standard none).isEmpty && (graft .standard none {} second).result.isOk) =
        some true := by
    decide +kernel
  obtain ⟨first, one, check⟩ := Option.bind_eq_some_iff.1 check
  obtain ⟨second, two, check⟩ := Option.map_eq_some_iff.1 check
  rw [Bool.and_eq_true, List.isEmpty_iff] at check
  have wellFormed : ∀ module ∈ [first, second], module.wellFormed = true := by
    simp [Module.wellFormed_of_parse? one, Module.wellFormed_of_parse? two]
  obtain ⟨-, -, agrees⟩ := @graftAll_counts .standard none {} [first, second]
    wellFormed
  refine ⟨first, second, one, two, wellFormed, ?_⟩
  rw [← Nat.zero_add (List.length _)]
  refine agrees.2 fun module mem fault failed => ?_
  rcases List.mem_pair.1 mem with rfl | rfl
  · exact check.1
  · rw [failed] at check
    exact absurd check.2 (by simp [Except.isOk, Except.toBool])

end Graft
