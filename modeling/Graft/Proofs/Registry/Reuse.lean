import Graft.Proofs.Module
import Graft.Proofs.Registry.Requests
import Graft.Proofs.Scope.Bindings
import Graft.Proofs.Scope.Names

set_option autoImplicit false

/-!
Which names are used again. All bindings of such a name come from leading imports; they come from
imports of the one export unless a relative import is among them, which the registry does not index.
-/
namespace Graft

namespace Node

/-- An import that says where its module is by points, or that has no module at all. -/
def isRelative : Node → Bool
  | .branch .importFrom _ [_, dots, module, _, _, _] => dots.dotCount != 0 || module.isAbsent
  | _ => false

def boundNames (node : Node) : List String := (node.clause?.map Clause.boundNames).getD []

theorem exports_of_isRelative {node : Node} (relative : node.isRelative = true) : node.exports = [] := by
  unfold isRelative at relative
  split at relative
  next parens word dots module between aliases closing =>
    refine if_neg fun absolute => ?_
    simp only [Bool.and_eq_true, Bool.not_eq_true', decide_eq_true_eq] at absolute
    simp [absolute.1, absolute.2] at relative
  next => exact absurd relative (by simp)

theorem exists_clause {node : Node} (wellFormed : node.wellFormed = true)
    (imports : node.isImportFrom = true) : ∃ clause, node.clause? = some clause := by
  obtain ⟨parens, children, rfl⟩ := exists_branch imports
  obtain ⟨_, _, _, _, _, _, rfl, -⟩ :=
    Shape.hasRoles_importFrom (Shape.hasRoles_of_fits ((wellFormed_branch _ _ _).1 wellFormed).1)
  exact ⟨_, rfl⟩

theorem exists_export {node : Node} (wellFormed : node.wellFormed = true)
    (imports : node.isImportFrom = true) (absolute : node.isRelative = false) {name : String}
    (bound : name ∈ node.boundNames) : ∃ wanted, (wanted, name) ∈ node.exports := by
  obtain ⟨parens, children, rfl⟩ := exists_branch imports
  obtain ⟨word, dots, module, between, aliases, closing, rfl, -⟩ :=
    Shape.hasRoles_importFrom (Shape.hasRoles_of_fits ((wellFormed_branch _ _ _).1 wellFormed).1)
  simp only [isRelative, Bool.or_eq_false_iff, bne_eq_false_iff_eq] at absolute
  obtain ⟨⟨exported, alias_⟩, named, spelled⟩ := List.mem_flatMap.1 bound
  obtain ⟨item, among, read⟩ := List.mem_filterMap.1 named
  have valid := aliasNames?_isIdentifier (isNameAlias_of_mem wellFormed among) read
  refine ⟨⟨module.fullName, exported⟩, ?_⟩
  simp only [exports, absolute.1, absolute.2, Bool.not_false, decide_true, Bool.and_self, if_true]
  refine List.mem_map.2 ⟨(exported, alias_), named, ?_⟩
  cases alias_ with
  | some alias_ => rw [List.mem_singleton.1 spelled]; rfl
  | none =>
    have only : Scope.prefixes exported = [exported] := Scope.prefixes_of_isIdentifier valid.1
    simp only [only] at spelled
    rw [List.mem_singleton.1 spelled]
    rfl

end Node

namespace Registry

variable {source : String} {module : Module} {survey : Scope.Survey} {wanted : Export} {name : String}

theorem exists_leading_of_known (known : (wanted, name) ∈ (ofModule module survey).1.known)
    {binding : Scope.Binding} (bound : binding ∈ survey.bindingsOf name) :
    ∃ located ∈ module.leadingImports, binding.origin = some located.1 := by
  have kept := List.any_eq_false.1 (mem_known known).2.2 binding bound
  cases origin : binding.origin with
  | none => simp [origin] at kept
  | some address =>
    obtain ⟨located, leading, rfl⟩ : ∃ located ∈ module.leadingImports, located.1 = address := by
      simpa [origin] using kept
    exact ⟨located, leading, rfl⟩

theorem mem_boundNames (wellFormed : module.wellFormed = true) (surveyed : Scope.survey module = .ok survey) {binding : Scope.Binding}
    (bound : binding ∈ survey.bindingsOf name) {located : Located}
    (leading : located ∈ module.leadingImports) (origin : binding.origin = some located.1) :
    name ∈ located.2.boundNames := by
  obtain ⟨binds, rfl⟩ := Scope.Survey.mem_bindingsOf.1 bound
  obtain ⟨found, -, imports⟩ := Module.part?_of_mem_leadingImports leading
  obtain ⟨node, here, said, spells⟩ := Scope.Survey.made_of_survey surveyed binds _ origin
  obtain rfl := Option.some.inj (found.symm.trans here)
  obtain ⟨clause, named⟩ :=
    Node.exists_clause (Module.wellFormed_of_mem_leadingImports wellFormed leading) imports
  simpa [Node.boundNames, named] using spells clause (said.symm.trans named)

/-- All bindings of a name that is used again come from imports of its export, exactly if none of the
leading relative imports binds it. -/
theorem bindings_of_known_iff (parsed : Module.parse? source = some module)
    (surveyed : Scope.survey module = .ok survey)
    (known : (wanted, name) ∈ (ofModule module survey).1.known) :
    (∀ binding ∈ survey.bindingsOf name, ∃ located ∈ module.leadingImports,
      binding.origin = some located.1 ∧ (wanted, name) ∈ located.2.exports) ↔
        ∀ located ∈ module.leadingImports, located.2.isRelative = true →
          name ∉ located.2.boundNames := by
  have wellFormed := Module.wellFormed_of_parse? parsed
  constructor
  next =>
    intro reused located leading relative bound
    obtain ⟨clause, said⟩ := Node.exists_clause
      (Module.wellFormed_of_mem_leadingImports wellFormed leading)
      (Module.part?_of_mem_leadingImports leading).2.2
    have spelled : name ∈ clause.boundNames := by simpa [Node.boundNames, said] using bound
    obtain ⟨binding, binds, named, origin⟩ :=
      Scope.binds_of_mem_leadingImports surveyed leading said spelled
    obtain ⟨other, among, same, exported⟩ :=
      reused binding (Scope.Survey.mem_bindingsOf.2 ⟨binds, named⟩)
    have place : located.1 = other.1 := Option.some.inj (origin.symm.trans same)
    have here := (Module.part?_of_mem_leadingImports leading).1
    rw [place, (Module.part?_of_mem_leadingImports among).1] at here
    rw [Option.some.inj here, Node.exports_of_isRelative relative] at exported
    exact absurd exported (by simp)
  next =>
    intro absolute binding bound
    obtain ⟨located, leading, origin⟩ := exists_leading_of_known known bound
    have spelled := mem_boundNames wellFormed surveyed bound leading origin
    have imports := (Module.part?_of_mem_leadingImports leading).2.2
    cases relative : located.2.isRelative with
    | true => exact absurd spelled (absolute located leading relative)
    | false =>
      obtain ⟨other, exported⟩ := Node.exists_export
        (Module.wellFormed_of_mem_leadingImports wellFormed leading) imports relative spelled
      have candidate : (other, name) ∈ candidates module :=
        List.mem_flatMap.2 ⟨located, leading, exported⟩
      have single := List.all_eq_true.1 (mem_known known).2.1 _ candidate
      obtain rfl : other = wanted := by simpa using single
      exact ⟨located, leading, origin, exported⟩

/-- Where an absolute import stands alone, its name has no other binding. -/
theorem bindings_of_known_single : ∃ module survey,
    Module.parse? "from formkit.vue import bindings\n" = some module ∧
      Scope.survey module = .ok survey ∧
        (⟨"formkit.vue", "bindings"⟩, "bindings") ∈ (ofModule module survey).1.known ∧
          ∀ binding ∈ survey.bindingsOf "bindings", ∃ located ∈ module.leadingImports,
            binding.origin = some located.1 ∧
              (⟨"formkit.vue", "bindings"⟩, "bindings") ∈ located.2.exports := by
  have check : ((Module.parse? "from formkit.vue import bindings\n").bind fun module =>
      (Scope.survey module).toOption.map fun survey =>
        (ofModule module survey).1.known.contains (⟨"formkit.vue", "bindings"⟩, "bindings") &&
          module.leadingImports.all fun located => !located.2.isRelative) = some true := by
    decide +kernel
  obtain ⟨module, parsed, check⟩ := Option.bind_eq_some_iff.1 check
  cases surveyed : Scope.survey module with
  | error fault => rw [surveyed] at check; exact absurd check (by simp [Except.toOption])
  | ok survey =>
    simp only [surveyed, Except.toOption, Option.map_some, Option.some.injEq, Bool.and_eq_true,
      List.contains_iff_mem, List.all_eq_true, Bool.not_eq_true'] at check
    exact ⟨module, survey, parsed, surveyed, check.1,
      (bindings_of_known_iff parsed surveyed check.1).2 fun located leading relative =>
        absurd relative (by simp [check.2 located leading])⟩

/-- A relative import binds the same name, which is used again all the same. -/
theorem known_beside_relative : ∃ module survey binding,
    Module.parse? "from formkit.vue import bindings\nfrom .local import bindings\n" = some module ∧
      Scope.survey module = .ok survey ∧
        (⟨"formkit.vue", "bindings"⟩, "bindings") ∈ (ofModule module survey).1.known ∧
          binding ∈ survey.bindingsOf "bindings" ∧
            ∀ located ∈ module.leadingImports, binding.origin = some located.1 →
              (⟨"formkit.vue", "bindings"⟩, "bindings") ∉ located.2.exports := by
  have check : ((Module.parse? "from formkit.vue import bindings\nfrom .local import bindings\n").bind
      fun module => (Scope.survey module).toOption.map fun survey =>
        (ofModule module survey).1.known.contains (⟨"formkit.vue", "bindings"⟩, "bindings") &&
          (survey.bindingsOf "bindings").any fun binding => module.leadingImports.all fun located =>
            binding.origin != some located.1 ||
              !located.2.exports.contains (⟨"formkit.vue", "bindings"⟩, "bindings")) = some true := by
    decide +kernel
  obtain ⟨module, parsed, check⟩ := Option.bind_eq_some_iff.1 check
  cases surveyed : Scope.survey module with
  | error fault => rw [surveyed] at check; exact absurd check (by simp [Except.toOption])
  | ok survey =>
    simp only [surveyed, Except.toOption, Option.map_some, Option.some.injEq, Bool.and_eq_true,
      List.contains_iff_mem, List.any_eq_true, List.all_eq_true] at check
    obtain ⟨known, binding, bound, apart⟩ := check
    refine ⟨module, survey, binding, parsed, surveyed, known, bound, fun located leading origin => ?_⟩
    simpa [origin] using apart located leading

end Registry

end Graft
