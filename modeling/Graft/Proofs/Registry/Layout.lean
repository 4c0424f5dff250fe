import Graft.Proofs.InputType
import Graft.Proofs.Scope.Blurred
import Graft.Proofs.Scope.Relaid

set_option autoImplicit false

/-!
The leading section of a module and the layout of its `try` statements.
-/
namespace Graft

namespace Module

/-- Modules that are laid out otherwise have the same reusable imports, if their leading sections end at the
same statement. -/
theorem known_relaid {first second : Module} (wellFormed : first.wellFormed = true)
    (again : second.wellFormed = true) (relaid : first.IsRelaid second)
    (ends : second.leadingEnd = first.leadingEnd) {survey : Scope.Survey}
    (surveyed : Scope.survey first = .ok survey) : ∃ other, Scope.survey second = .ok other ∧
      (Registry.ofModule second other).1.known = (Registry.ofModule first survey).1.known := by
  have mirror := @Scope.Blurred.mirror (first.leadingImports.map (·.1)).contains
    (second.leadingImports.map (·.1)).contains (first.relocate second) first.root
    fun address _ _ => relaid.contains_relocate ends address
  obtain ⟨other, done, alike⟩ := Scope.stepOf_root_relaid mirror relaid wellFormed again
    ⟨0, some [], false, false, false, false, .none⟩ .initial .initial survey rfl rfl surveyed
  refine ⟨other, done, ?_⟩
  simp only [Registry.ofModule, relaid.candidates_eq ends, alike.isRebound]

/-- The leading section is as long as the longest opening of the module, unless it ends at a `try` that guards
imports and is passed over. What opens a module does so in every layout; so modules of which neither is cut
short have leading sections of one length, and with that the same reusable imports. -/
theorem leadingEnd_layout {code : String} {module : Module} (parsed : parse? code = some module) :
    (IsGreatest {count | module.OpensFor count} module.leadingEnd ↔ module.isCutShort = false) ∧
      ∀ {text : String} {other : Module}, parse? text = some other → module.IsRelaid other →
        (∀ count, other.OpensFor count ↔ module.OpensFor count) ∧
          (module.isCutShort = false → other.isCutShort = false → other.leadingEnd = module.leadingEnd) ∧
            (other.leadingEnd = module.leadingEnd → ∀ survey, Scope.survey module = .ok survey →
              ∃ again, Scope.survey other = .ok again ∧
                (Registry.ofModule other again).1.known = (Registry.ofModule module survey).1.known) := by
  refine ⟨isGreatest_leadingEnd_iff module.leadingEnd_le, fun {text other} reads relaid => ?_⟩
  refine ⟨relaid.opensFor_iff, fun whole complete => ?_, fun ends survey surveyed => ?_⟩
  · have mine := (isGreatest_leadingEnd_iff module.leadingEnd_le).2 whole
    have yours := (isGreatest_leadingEnd_iff other.leadingEnd_le).2 complete
    simp only [relaid.opensFor_iff] at yours
    exact yours.unique mine
  · exact known_relaid (wellFormed_of_parse? parsed) (wellFormed_of_parse? reads) relaid ends surveyed

/-- Imports on one line of a block, or on two, and another `try` behind the leading section. -/
theorem leadingEnd_layout_regrouped : ∃ module other survey again,
    parse? "try:\n import a\n from b import c\nfinally: x\ntry: y\nfinally: z\n" =
        some module ∧
      parse? "try:\n import a; from b import c\nfinally: x\ntry:\n y\nfinally: z\n" =
          some other ∧
        module.IsRelaid other ∧ IsGreatest {count | module.OpensFor count} module.leadingEnd ∧
          module.leadingEnd = 1 ∧ other.leadingEnd = module.leadingEnd ∧ Scope.survey module = .ok survey ∧
            Scope.survey other = .ok again ∧
              (Registry.ofModule module survey).1.known = [(⟨"b", "c"⟩, "c")] ∧
                (Registry.ofModule other again).1.known = (Registry.ofModule module survey).1.known := by
  have check : ((parse? "try:\n import a\n from b import c\nfinally: x\ntry: y\nfinally: z\n").bind
      fun module => (parse? "try:\n import a; from b import c\nfinally: x\ntry:\n y\nfinally: z\n").bind
        fun other => (Scope.survey module).toOption.map fun survey =>
          decide (module.IsRelaid other) && !module.isCutShort && !other.isCutShort &&
            module.leadingEnd == 1 &&
              decide ((Registry.ofModule module survey).1.known = [(⟨"b", "c"⟩, "c")])) = some true := by
    decide +kernel
  obtain ⟨module, parsed, check⟩ := Option.bind_eq_some_iff.1 check
  obtain ⟨other, reads, check⟩ := Option.bind_eq_some_iff.1 check
  obtain ⟨survey, surveyed, check⟩ := Option.map_eq_some_iff.1 check
  simp only [Bool.and_eq_true, decide_eq_true_eq, Bool.not_eq_true', beq_iff_eq] at check
  obtain ⟨⟨⟨⟨relaid, whole⟩, complete⟩, length⟩, known⟩ := check
  obtain ⟨greatest, layout⟩ := leadingEnd_layout parsed
  obtain ⟨-, ends, same⟩ := layout reads relaid
  have surveyed := eq_ok_of_toOption surveyed
  obtain ⟨again, resurveyed, reused⟩ := same (ends whole complete) survey surveyed
  exact ⟨module, other, survey, again, parsed, reads, relaid, greatest.2 whole, length, ends whole complete,
    surveyed, resurveyed, known, reused⟩

/-- A body behind the colon is passed over, and its import is not reused; in a block it is. -/
theorem leadingEnd_layout_fails : ∃ module other survey again,
    parse? "try: from formkit.vue import bindings\nexcept E: pass\n" = some module ∧
      parse? "try:\n    from formkit.vue import bindings\nexcept E: pass\n" = some other ∧
        module.IsRelaid other ∧ module.OpensFor 1 ∧ module.leadingEnd = 0 ∧ other.leadingEnd = 1 ∧
          Scope.survey module = .ok survey ∧ Scope.survey other = .ok again ∧
            (Registry.ofModule module survey).1.known = [] ∧
              (Registry.ofModule other again).1.known = [(⟨"formkit.vue", "bindings"⟩, "bindings")] := by
  have check : ((parse? "try: from formkit.vue import bindings\nexcept E: pass\n").bind
      fun module => (parse? "try:\n    from formkit.vue import bindings\nexcept E: pass\n").bind
        fun other => (Scope.survey module).toOption.bind fun survey => (Scope.survey other).toOption.map fun again =>
          decide (module.IsRelaid other) && (module.body.length == 1 && module.body.all (Node.opens 0)) &&
            module.leadingEnd == 0 && other.leadingEnd == 1 &&
              decide ((Registry.ofModule module survey).1.known = []) &&
                decide ((Registry.ofModule other again).1.known = [(⟨"formkit.vue", "bindings"⟩, "bindings")])) =
        some true := by
    decide +kernel
  obtain ⟨module, parsed, check⟩ := Option.bind_eq_some_iff.1 check
  obtain ⟨other, reads, check⟩ := Option.bind_eq_some_iff.1 check
  obtain ⟨survey, surveyed, check⟩ := Option.bind_eq_some_iff.1 check
  obtain ⟨again, resurveyed, check⟩ := Option.map_eq_some_iff.1 check
  simp only [Bool.and_eq_true, decide_eq_true_eq, beq_iff_eq, List.all_eq_true] at check
  obtain ⟨⟨⟨⟨⟨relaid, one, opens⟩, ends⟩, more⟩, nothing⟩, known⟩ := check
  refine ⟨module, other, survey, again, parsed, reads, relaid, ⟨one.ge, fun i statement before here => ?_⟩, ends,
    more, eq_ok_of_toOption surveyed, eq_ok_of_toOption resurveyed, nothing, known⟩
  obtain rfl : i = 0 := by omega
  exact opens statement (List.mem_of_getElem? here)

end Module

end Graft
