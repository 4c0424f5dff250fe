import Graft.Proofs.Scope.Plain
import Graft.Proofs.Shadowing

set_option autoImplicit false

/-!
The callees of uses. Each begins with a name, and unless a call or an item stands on the way from there, it is
a chain of names that is the factory by an import.
-/
namespace Graft

namespace Node

def isIndirect : Node → Bool
  | .branch .member _ [base, _, .name _ _] => base.isIndirect
  | .branch .call _ [_, _, _, _] => true
  | .branch .subscript _ [_, _, _, _] => true
  | _ => false

theorem fullName_eq_empty_of_isIndirect {node : Node} (indirect : node.isIndirect = true) :
    node.fullName = "" := by
  fun_induction isIndirect node with
  | case1 parens base dot around id ih => simp [fullName, ih indirect]
  | case2 => rfl
  | case3 => rfl
  | case4 => exact absurd indirect (by simp)

theorem fullName_ne_empty_of_leftmost? {node : Node} {name : String} (leftmost : node.leftmost? = some name)
    (direct : node.isIndirect = false) : node.fullName ≠ "" := by
  fun_induction leftmost? node with
  | case1 parens id => exact isIdentifier_ne_empty id.valid
  | case2 parens base dot around id ih =>
    have inner : base.fullName ≠ "" := ih leftmost direct
    simp [fullName, inner]
  | case3 => exact absurd direct (by simp [isIndirect])
  | case4 => exact absurd direct (by simp [isIndirect])
  | case5 => exact absurd leftmost (by simp)

end Node

namespace Scope

/-- What begins with no name is looked up by a dotted text with a keyword in front. -/
theorem not_isPlain_of_leftmost? {node : Node} (nameless : node.leftmost? = none) {text : String}
    (spelled : looseName? node = some text) : ∀ part ∈ prefixes text, Dotted.isPlain part = false := by
  fun_induction looseName? node generalizing text with
  | case1 parens id => exact absurd nameless (by simp [Node.leftmost?])
  | case2 parens base dot around id ih =>
    obtain rfl := Option.some.inj spelled
    -- An attribute of what has no name at all is looked up as one of `None`, which is a keyword.
    have before : ∀ part ∈ prefixes ((looseName? base).getD "None"), Dotted.isPlain part = false := by
      cases found : looseName? base with
      | none =>
        have valid : isIdentifier "None" = true := by decide +kernel
        rw [Option.getD_none, prefixes_of_isIdentifier valid]
        simp [Dotted.isPlain_of_isIdentifier valid, isKeyword, keywords]
      | some text => exact ih nameless found
    rw [prefixes_append_point _ id.valid]
    simp only [List.mem_cons, forall_eq_or_imp]
    exact ⟨by rw [Dotted.isPlain_append_point, before _ (mem_prefixes _), Bool.false_and], before⟩
  | case3 parens callee opening arguments closing ih => exact ih nameless spelled
  | case4 parens base opening items closing ih => exact ih nameless spelled
  | case5 => exact absurd spelled (by simp)

theorem mem_bindingsOf_of_seen {survey : Survey} {scope stamp : Nat} {name : String} {binding : Binding}
    (mem : binding ∈ survey.seen scope stamp name) : binding ∈ survey.bindingsOf name := by
  unfold Survey.seen at mem
  dsimp only at mem
  split at mem
  next =>
    split at mem
    next => exact Survey.mem_bindingsOf_of_resolve mem
    next => exact Survey.mem_bindingsOf_of_resolve (List.mem_filter.1 mem).1
  next => split at mem <;> exact Survey.mem_bindingsOf_of_resolve mem

/-- What a callee refers to, it refers to by a binding of a dotted name in front of it. -/
theorem exists_binding_of_mem_referents {survey : Survey} {site : Site} {callee : Node} {referent : Referent}
    (mem : referent ∈ survey.referents site callee) :
    ∃ text binding, looseName? callee = some text ∧ survey.Binds binding ∧ binding.name ∈ prefixes text ∧
      referent ∈ binding.referents text ∧
        ∀ given ∈ binding.referents text, given ∈ survey.referents site callee := by
  unfold Survey.referents at mem ⊢
  dsimp only at mem ⊢
  split at mem
  next plain =>
    rw [if_pos plain]
    rw [Bool.and_eq_true, bne_iff_ne] at plain
    obtain ⟨binding, seen, refers⟩ := List.mem_flatMap.1 mem
    obtain ⟨binds, named⟩ := Survey.mem_bindingsOf.1 (mem_bindingsOf_of_seen seen)
    exact ⟨_, binding, Node.looseName?_of_fullName plain.1, binds, named ▸ mem_prefixes _, refers,
      fun _ given => List.mem_flatMap.2 ⟨binding, seen, given⟩⟩
  next loose =>
    rw [if_neg loose]
    split at mem
    next text spelled =>
      unfold Survey.looseReferents at mem ⊢
      split at mem
      next part found =>
        obtain ⟨binding, resolved, refers⟩ := List.mem_flatMap.1 mem
        obtain ⟨binds, named⟩ := Survey.mem_bindingsOf.1 (Survey.mem_bindingsOf_of_resolve resolved)
        exact ⟨text, binding, spelled, binds, named ▸ List.mem_of_find?_eq_some found, refers,
          fun _ given => List.mem_flatMap.2 ⟨binding, resolved, given⟩⟩
      next => exact absurd mem (by simp)
    next => exact absurd mem (by simp)

/-- All that a callee refers to is one export: it is so by an import. -/
theorem exists_clause_of_agreed? {survey : Survey} {site : Site} {callee : Node} {qualified : String}
    (agrees : agreed? (survey.referents site callee) = some qualified) :
    ∃ text binding clause, looseName? callee = some text ∧ survey.Binds binding ∧
      binding.name ∈ prefixes text ∧ binding.clause = some clause ∧ importedNames clause text ≠ [] ∧
        ∀ other ∈ importedNames clause text, other = qualified := by
  have all := agreed?_eq_some agrees
  obtain ⟨referent, mem⟩ : ∃ referent, referent ∈ survey.referents site callee := by
    refine List.exists_mem_of_ne_nil _ ?_
    intro none
    exact absurd agrees (by simp [none, agreed?])
  obtain ⟨text, binding, spelled, binds, among, refers, rest⟩ := exists_binding_of_mem_referents mem
  obtain rfl := all referent mem
  cases said : binding.clause with
  | none => exact absurd refers (by simp [Binding.referents, said])
  | some clause =>
    simp only [Binding.referents, said] at refers rest
    obtain ⟨name, given, -⟩ := List.mem_map.1 refers
    refine ⟨text, binding, clause, spelled, binds, among, said, List.ne_nil_of_mem given, ?_⟩
    intro other mem
    exact Referent.imported.inj (all _ (rest _ (List.mem_map_of_mem mem)))

end Scope

/-- A use whose callee is a name, or a chain of attributes of one, that is its factory by an import, whatever
it may refer to. -/
structure Use.IsDirect (settings : Settings) (survey : Scope.Survey) (use : Use) : Prop where
  named : use.call.callee.fullName ≠ ""
  imported : ∃ binding clause, survey.Binds binding ∧ binding.name ∈ Scope.prefixes use.call.callee.fullName ∧
    binding.clause = some clause ∧ clause.Denotes settings use.call.callee use.factory
  agreed : ∃ site, survey.siteOf? use.address = some site ∧
    ∀ referent ∈ survey.referents site use.call.callee, ∃ qualified, referent = .imported qualified ∧
      settings.factoryTable.lookup qualified = some use.factory

section

variable {settings : Settings} {file : Option String} {source : String} {module : Module}
  {survey : Scope.Survey} (parsed : Module.parse? source = some module)
  (surveyed : Scope.survey module = .ok survey) {use : Use} (mem : use ∈ module.uses settings file survey)

include parsed surveyed mem

theorem Module.exists_leftmost_of_mem_uses : ∃ name, use.call.callee.leftmost? = some name := by
  obtain ⟨-, -, recognised⟩ := Module.mem_uses mem
  simp only [Use.factoryOf?, Option.bind_eq_bind, Option.bind_eq_some_iff] at recognised
  obtain ⟨site, -, qualified, agrees, -⟩ := recognised
  obtain ⟨text, binding, clause, spelled, binds, among, said, -⟩ := Scope.exists_clause_of_agreed? agrees
  -- Without one it would be looked up by a keyword, and nothing is imported by that.
  refine Option.ne_none_iff_exists'.1 fun nameless => ?_
  have keyword := Scope.not_isPlain_of_leftmost? nameless spelled _ among
  have plain := Scope.isPlain_of_binds parsed surveyed binds (by simp [said])
  exact absurd (keyword.symm.trans plain) (by simp)

/-- A use is direct if and only if its callee is reached through no call and no item. -/
theorem Module.isDirect_iff_of_mem_uses :
    use.IsDirect settings survey ↔ use.call.callee.isIndirect = false := by
  constructor
  next =>
    intro direct
    rw [← Bool.not_eq_true]
    exact fun indirect => direct.named (Node.fullName_eq_empty_of_isIndirect indirect)
  next =>
    intro direct
    obtain ⟨name, leftmost⟩ := Module.exists_leftmost_of_mem_uses parsed surveyed mem
    have named := Node.fullName_ne_empty_of_leftmost? leftmost direct
    obtain ⟨-, -, recognised⟩ := Module.mem_uses mem
    simp only [Use.factoryOf?, Option.bind_eq_bind, Option.bind_eq_some_iff] at recognised
    obtain ⟨site, seen, qualified, agrees, listed⟩ := recognised
    obtain ⟨text, binding, clause, spelled, binds, among, said, some, only⟩ :=
      Scope.exists_clause_of_agreed? agrees
    -- The text that the import is found by is the full name of the callee.
    obtain rfl := Option.some.inj (spelled.symm.trans (Node.looseName?_of_fullName named))
    exact
      { named
        imported := ⟨binding, clause, binds, among, said, _, spelled, some, fun other given =>
          only other given ▸ listed⟩
        agreed := ⟨site, seen, fun referent given =>
          ⟨qualified, Scope.agreed?_eq_some agrees referent given, listed⟩⟩ }

end

/-- A call of an imported name. -/
theorem isDirect_of_plain_call : ∃ module survey use,
    Module.parse? "from formkit.vue import FormKit\nFormKit(el)\n" = some module ∧
      Scope.survey module = .ok survey ∧ use ∈ module.uses .standard none survey ∧
        use.IsDirect .standard survey := by
  have check : ((Module.parse? "from formkit.vue import FormKit\nFormKit(el)\n").bind fun module =>
      (Scope.survey module).toOption.map fun survey =>
        (module.uses .standard none survey).any fun use => !use.call.callee.isIndirect) = some true := by
    decide +kernel
  obtain ⟨module, parsed, check⟩ := Option.bind_eq_some_iff.1 check
  obtain ⟨survey, surveyed, check⟩ := Option.map_eq_some_iff.1 check
  obtain ⟨use, mem, direct⟩ := List.any_eq_true.1 check
  exact ⟨module, survey, use, parsed, eq_ok_of_toOption surveyed, mem,
    (Module.isDirect_iff_of_mem_uses parsed (eq_ok_of_toOption surveyed) mem).2 (by simpa using direct)⟩

/-- A call of what a factory returns is a use as well. -/
theorem uses_of_called_result : ∃ module survey use,
    Module.parse? "from formkit.vue import FormKit\nFormKit(el)(x)\n" = some module ∧
      Scope.survey module = .ok survey ∧ use ∈ module.uses .standard none survey ∧
        use.call.callee.isA .call = true ∧ use.call.callee.fullName = "" := by
  have check : ((Module.parse? "from formkit.vue import FormKit\nFormKit(el)(x)\n").bind fun module =>
      (Scope.survey module).toOption.map fun survey =>
        (module.uses .standard none survey).any fun use =>
          use.call.callee.isA .call && use.call.callee.fullName = "") = some true := by
    decide +kernel
  obtain ⟨module, parsed, check⟩ := Option.bind_eq_some_iff.1 check
  obtain ⟨survey, surveyed, check⟩ := Option.map_eq_some_iff.1 check
  obtain ⟨use, mem, is⟩ := List.any_eq_true.1 check
  exact ⟨module, survey, use, parsed, eq_ok_of_toOption surveyed, mem, by simpa using is⟩

end Graft
