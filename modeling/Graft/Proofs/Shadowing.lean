import Graft.Proofs.Grafting.Written
import Graft.Proofs.Scope.Locals
import Graft.Proofs.Tree.DottedName

set_option autoImplicit false

/-!
Callees whose leftmost name is local to a function. What the function binds it to decides what the callee
refers to, so that a call is a use only if those are imports, and the callee is its factory by each of them.
-/
namespace Graft

namespace Node

/-- The name that a callee begins with. -/
def leftmost? : Node → Option String
  | .name _ id => some id.text
  | .branch .member _ [base, _, .name _ _] => base.leftmost?
  | .branch .call _ [callee, _, _, _] => callee.leftmost?
  | .branch .subscript _ [base, _, _, _] => base.leftmost?
  | _ => none

/-- The dotted names that a callee may be looked up by, the longest first. -/
def dottedNames (callee : Node) : List String := ((Scope.looseName? callee).map Scope.prefixes).getD []

theorem looseName?_of_leftmost? {node : Node} {name : String} (leftmost : node.leftmost? = some name) :
    ∃ text, Scope.looseName? node = some text ∧ name ∈ Scope.prefixes text := by
  fun_induction leftmost? node with
  | case1 parens id =>
    obtain rfl := Option.some.inj leftmost
    exact ⟨id.text, rfl, Scope.mem_prefixes _⟩
  | case2 parens base dot around id ih =>
    obtain ⟨text, spelled, mem⟩ := ih leftmost
    refine ⟨text ++ "." ++ id.text, by simp [Scope.looseName?, spelled], ?_⟩
    rw [Scope.prefixes_append_point text id.valid]
    exact List.mem_cons_of_mem _ mem
  | case3 parens callee opening arguments closing ih => exact ih leftmost
  | case4 parens base opening items closing ih => exact ih leftmost
  | case5 => exact absurd leftmost (by simp)

theorem mem_dottedNames {callee : Node} {text : String} (spelled : Scope.looseName? callee = some text)
    {name : String} : name ∈ callee.dottedNames ↔ name ∈ Scope.prefixes text := by
  simp [dottedNames, spelled]

theorem looseName?_of_fullName {node : Node} (named : node.fullName ≠ "") :
    Scope.looseName? node = some node.fullName := by
  fun_induction fullName node with
  | case1 parens id => rfl
  | case2 => exact absurd rfl named
  | case3 parens base dot around id text inner ih => simp [Scope.looseName?, ih inner, text]
  | case4 => exact absurd rfl named

end Node

namespace Scope

theorem dropPrefix?_append (first rest : Source.Chars) :
    Source.dropPrefix? first (first ++ rest) = some rest := by
  induction first with
  | nil => rfl
  | cons c first ih => simp [Source.dropPrefix?, ih]

theorem afterPrefix?_isSome {part text : String} (mem : part ∈ prefixes text) :
    (afterPrefix? part text).isSome = true := by
  obtain ⟨n, inside, rfl⟩ := List.mem_map.1 mem
  obtain ⟨first, rest, parts⟩ := List.exists_cons_of_ne_nil (Dotted.segments_ne_nil text)
  have whole := Dotted.ofSegments_segments text
  rw [parts] at whole ⊢
  have split : text.toList = (Dotted.ofSegments (first :: rest.take n)).toList ++
      ((rest.drop n).map String.toList).flatMap ('.' :: ·) := by
    have rejoined : rest.map String.toList = (rest.take n).map String.toList ++ (rest.drop n).map String.toList := by
      rw [← List.map_append, List.take_append_drop]
    rw [← whole]
    simp only [Dotted.ofSegments, List.map_cons, Dotted.join_cons, rejoined, String.toList_ofList,
      List.flatMap_append, List.append_assoc]
  rw [afterPrefix?, List.take_succ_cons, split, dropPrefix?_append]
  cases rest.drop n <;> rfl

/-- An import gives a dotted text some export, if it binds a dotted prefix of it. -/
theorem importedNames_ne_nil {clause : Clause} {name text : String} (bound : name ∈ clause.boundNames)
    (mem : name ∈ prefixes text) : importedNames clause text ≠ [] := by
  obtain ⟨⟨imported, binder⟩, among, here⟩ := List.mem_flatMap.1 bound
  have after := afterPrefix?_isSome mem
  have given : ∃ part ∈ prefixes imported, binder.getD part = name := by
    cases binder with
    | none => exact ⟨name, here, rfl⟩
    | some binder => exact ⟨imported, mem_prefixes imported, (List.mem_singleton.1 here).symm⟩
  obtain ⟨part, inner, same⟩ := given
  have found : ((prefixes imported).findSome? fun part => (afterPrefix? (binder.getD part) text).map
      (withRest (inside clause.source part))).isSome = true := by
    rw [List.findSome?_isSome_iff]
    exact ⟨part, inner, by rw [same, Option.isSome_map]; exact after⟩
  obtain ⟨qualified, made⟩ := Option.isSome_iff_exists.1 found
  exact List.ne_nil_of_mem (List.mem_filterMap.2 ⟨(imported, binder), among, made⟩)

section

variable {survey : Survey} {scope : Nat} {name : String} {binding : Binding}
  (undeclared : (survey.frame scope).redirects.lookup name = none)
  (mem : binding ∈ (survey.frame scope).bindings) (named : binding.name = name)

include undeclared mem named

theorem resolve_of_mem : survey.resolve name scope =
    (scope, (survey.frame scope).bindings.filter (·.name == name)) := by
  have own : binding ∈ (survey.frame scope).bindings.filter (·.name == name) :=
    List.mem_filter.2 ⟨mem, by simp [named]⟩
  have some : ((survey.frame scope).bindings.filter (·.name == name)).isEmpty = false :=
    List.isEmpty_eq_false_iff.2 (List.ne_nil_of_mem own)
  simp [Survey.resolve, Survey.resolveFrom, Survey.hides, undeclared, some]

theorem mem_resolve : binding ∈ (survey.resolve name scope).2 := by
  rw [resolve_of_mem undeclared mem named]
  exact List.mem_filter.2 ⟨mem, by simp [named]⟩

theorem knows_of_mem : survey.knows name scope = true := by
  rw [Survey.knows, Bool.not_eq_true', List.isEmpty_eq_false_iff]
  exact List.ne_nil_of_mem (mem_resolve undeclared mem named)

theorem mem_seen {stamp : Nat} (early : binding.stamp < stamp) : binding ∈ survey.seen scope stamp name := by
  have own : binding ∈ ((survey.frame scope).bindings.filter (·.name == name)).filter (·.stamp < stamp) :=
    List.mem_filter.2 ⟨List.mem_filter.2 ⟨mem, by simp [named]⟩, by simp [early]⟩
  have some := List.isEmpty_eq_false_iff.2 (List.ne_nil_of_mem own)
  rw [Survey.seen, resolve_of_mem undeclared mem named]
  simp only [if_true, some, Bool.false_and, Bool.false_eq_true, if_false]
  exact own

end

/-- What a callee refers to by the bindings that its scope has of the longest dotted name known there. -/
theorem mem_referents {survey : Survey} {site : Site} {callee : Node} {text name : String}
    (spelled : looseName? callee = some text)
    (longest : (prefixes text).find? (survey.knows · site.scope) = some name) {binding : Binding}
    (undeclared : (survey.frame site.scope).redirects.lookup name = none)
    (mem : binding ∈ (survey.frame site.scope).bindings) (named : binding.name = name)
    (early : callee.fullName = name → binding.stamp < site.stamp) {referent : Referent}
    (refers : referent ∈ binding.referents text) : referent ∈ survey.referents site callee := by
  unfold Survey.referents
  dsimp only
  split
  next plain =>
    rw [Bool.and_eq_true, bne_iff_ne] at plain
    obtain rfl := Option.some.inj (spelled.symm.trans (Node.looseName?_of_fullName plain.1))
    -- The whole text is the first of its prefixes.
    have same : callee.fullName = name := by
      obtain ⟨shorter, whole⟩ := exists_prefixes callee.fullName
      rw [whole, List.find?_cons, plain.2] at longest
      exact Option.some.inj longest
    rw [same] at refers ⊢
    exact List.mem_flatMap.2 ⟨binding, mem_seen undeclared mem named (early same), refers⟩
  next =>
    rw [spelled]
    dsimp only
    rw [Survey.looseReferents, longest]
    exact List.mem_flatMap.2 ⟨binding, mem_resolve undeclared mem named, refers⟩

end Scope

/-- By an import, a callee can only be a factory. -/
def Clause.Denotes (clause : Clause) (settings : Settings) (callee : Node) (factory : Export) : Prop :=
  ∃ text, Scope.looseName? callee = some text ∧ Scope.importedNames clause text ≠ [] ∧
    ∀ qualified ∈ Scope.importedNames clause text, settings.factoryTable.lookup qualified = some factory

/-- A construct that binds a name has the name among those of its import, if it is one. -/
theorem Node.mem_boundNames {node : Node} {name : String} (mem : name ∈ node.binders) {clause : Clause}
    (said : node.clause? = some clause) : name ∈ clause.boundNames := by
  have shape : ∃ kind parens parts, node = .branch kind parens parts ∧
      (kind = .importing ∨ kind = .importFrom) := by
    cases node with
    | leaf l => exact absurd said (by simp [clause?])
    | name parens id => exact absurd said (by simp [clause?])
    | branch kind parens parts =>
      refine ⟨kind, parens, parts, rfl, Decidable.byContradiction fun other => ?_⟩
      rw [not_or] at other
      exact absurd said (by rw [Scope.clause?_of_kind other.1 other.2]; simp)
  obtain ⟨kind, parens, parts, rfl, imports⟩ := shape
  obtain rfl | rfl := imports
  next => simpa [binders, boundHere, isA, Kind.target?, Kind.definition?, said] using mem
  next => simpa [binders, boundHere, isA, Kind.target?, Kind.definition?, said] using mem

theorem Enclosing.Binds.mem_boundNames {root : Node} {call : Address} {scope : Enclosing root call}
    {early : Prop} {name : String} {clause : Clause} (binds : scope.Binds early name (some clause)) :
    name ∈ clause.boundNames := by
  generalize said : some clause = found at binds
  cases binds with
  | parameter mem => exact Node.mem_boundNames mem said.symm
  | construct _ _ mem _ => exact Node.mem_boundNames mem said.symm

/-- What the function binds the longest known dotted name of a callee by, if all that the callee refers to is
one export: an import that gives the callee this export and no other. -/
theorem Scope.imported_of_agreed? {module : Module} {survey : Survey} (surveyed : Scope.survey module = .ok survey)
    {site : Site} (mem : site ∈ survey.sites) (scope : Enclosing module.root site.call) {callee : Node}
    {text name qualified : String} (agrees : agreed? (survey.referents site callee) = some qualified)
    (spelled : looseName? callee = some text)
    (longest : (prefixes text).find? (survey.knows · site.scope) = some name)
    (undeclared : (survey.frame site.scope).redirects.lookup name = none) {clause : Option Clause}
    (binds : scope.Binds (callee.fullName = name) name clause) :
    ∃ imported, clause = some imported ∧ importedNames imported text ≠ [] ∧
      ∀ other ∈ importedNames imported text, other = qualified := by
  obtain ⟨binding, own, named, said, early⟩ := exists_binding_of_binds surveyed mem scope binds undeclared
  have agree (referent : Referent) (given : referent ∈ binding.referents text) :
      referent = .imported qualified :=
    agreed?_eq_some agrees referent (mem_referents spelled longest undeclared own named early given)
  cases clause with
  | none => exact absurd (agree .other (by simp [Binding.referents, said])) (by simp)
  | some imported =>
    refine ⟨imported, rfl, importedNames_ne_nil binds.mem_boundNames (List.mem_of_find?_eq_some longest), ?_⟩
    intro other given
    exact Referent.imported.inj (agree (.imported other) (by simp [Binding.referents, said, given]))

theorem Scope.mem_of_siteOf? {survey : Survey} {call : Address} {site : Site}
    (seen : survey.siteOf? call = some site) : site ∈ survey.sites ∧ site.call = call := by
  refine ⟨List.mem_of_find?_eq_some seen, ?_⟩
  have same := List.find?_some seen
  exact eq_of_beq same

/-- Where a function binds the leftmost name of a callee, a call in its scope is a use only if that is by an
import, and the callee is the factory of the use by it. Longer dotted names that are known are looked up
first, so they have to be bound alike. -/
theorem Module.denotes_of_mem_uses {settings : Settings} {file : Option String} {module : Module}
    {survey : Scope.Survey} (surveyed : Scope.survey module = .ok survey) {use : Use}
    (mem : use ∈ module.uses settings file survey) (scope : Enclosing module.root use.address)
    {site : Scope.Site} (seen : survey.siteOf? use.address = some site) {name : String}
    (leftmost : use.call.callee.leftmost? = some name) {clause : Option Clause}
    (binds : scope.Binds (use.call.callee.fullName = name) name clause)
    (undeclared : ∀ part ∈ use.call.callee.dottedNames,
      (survey.frame site.scope).redirects.lookup part = none)
    (alike : ∀ part ∈ use.call.callee.dottedNames, part ≠ name → survey.knows part site.scope = true →
      scope.Binds (use.call.callee.fullName = part) part clause) :
    ∃ imported, clause = some imported ∧ imported.Denotes settings use.call.callee use.factory := by
  obtain ⟨text, spelled, among⟩ := Node.looseName?_of_leftmost? leftmost
  have dotted (part : String) : part ∈ use.call.callee.dottedNames ↔ part ∈ Scope.prefixes text :=
    Node.mem_dottedNames spelled
  obtain ⟨-, -, recognised⟩ := Module.mem_uses mem
  simp only [Use.factoryOf?, seen, Option.bind_eq_bind, Option.bind_some, Option.bind_eq_some_iff] at recognised
  obtain ⟨qualified, agrees, listed⟩ := recognised
  obtain ⟨stands, place⟩ := Scope.mem_of_siteOf? seen
  generalize use.address = address at scope binds alike place
  subst place
  have known : survey.knows name site.scope = true := by
    obtain ⟨binding, own, named, -⟩ := Scope.exists_binding_of_binds surveyed stands scope binds
      (undeclared name ((dotted name).2 among))
    exact Scope.knows_of_mem (undeclared name ((dotted name).2 among)) own named
  obtain ⟨longest, found⟩ : ∃ part, (Scope.prefixes text).find? (survey.knows · site.scope) = some part :=
    Option.isSome_iff_exists.1 (List.find?_isSome.2 ⟨name, among, known⟩)
  have inner := (dotted longest).2 (List.mem_of_find?_eq_some found)
  have binds : scope.Binds (use.call.callee.fullName = longest) longest clause := by
    by_cases same : longest = name
    next => exact same ▸ binds
    next =>
      have known := List.find?_some found
      exact alike longest inner same known
  obtain ⟨imported, rfl, some, only⟩ := Scope.imported_of_agreed? surveyed stands scope agrees spelled found
    (undeclared longest inner) binds
  exact ⟨imported, rfl, text, spelled, some, fun other given => only other given ▸ listed⟩

/-- A call of what its function imports. -/
theorem denotes_of_mem_uses_import : ∃ module survey use imported,
    Module.parse? "def form(el):\n    from formkit.vue import FormKit\n    FormKit(el)\n" = some module ∧
      Scope.survey module = .ok survey ∧ use ∈ module.uses .standard none survey ∧
        use.call.callee.leftmost? = some "FormKit" ∧
          Clause.Denotes imported .standard use.call.callee use.factory := by
  have check : ((Module.parse? "def form(el):\n    from formkit.vue import FormKit\n    FormKit(el)\n").bind
      fun module => (Scope.survey module).toOption.bind fun survey =>
        (survey.siteOf? [1, 9, 2, 1, 0]).bind fun site => (module.root.part? [1]).bind fun function =>
          function.functionParts?.bind fun (_, body, index) => (body.part? [1, 1]).map fun construct =>
            index = 9 && body.isDirect [2, 1, 0] && body.isSequence && body.reaches [1, 1] &&
              construct.binders.contains "FormKit" &&
                (survey.frame site.scope).redirects.lookup "FormKit" = none &&
                  (module.uses .standard none survey).any fun use =>
                    use.address = [1, 9, 2, 1, 0] && use.call.callee.leftmost? = some "FormKit" &&
                      use.call.callee.dottedNames = ["FormKit"]) = some true := by
    decide +kernel
  obtain ⟨module, parsed, check⟩ := Option.bind_eq_some_iff.1 check
  obtain ⟨survey, surveyed, check⟩ := Option.bind_eq_some_iff.1 check
  obtain ⟨site, seen, check⟩ := Option.bind_eq_some_iff.1 check
  obtain ⟨function, stands, check⟩ := Option.bind_eq_some_iff.1 check
  obtain ⟨⟨parameters, body, index⟩, parts, check⟩ := Option.bind_eq_some_iff.1 check
  obtain ⟨construct, found, check⟩ := Option.map_eq_some_iff.1 check
  simp only [Bool.and_eq_true, decide_eq_true_eq, List.any_eq_true, List.contains_iff_mem] at check
  obtain ⟨⟨⟨⟨⟨⟨rfl, direct⟩, sequence⟩, reached⟩, bound⟩, undeclared⟩, use, mem, ⟨place, leftmost⟩, dotted⟩ := check
  let scope : Enclosing module.root use.address :=
    ⟨[1], function, stands, parameters, body, 9, parts, [2, 1, 0], place, direct⟩
  have completes : body.Completes [1, 1] [2, 1, 0] :=
    @Node.Completes.earlier body [] body rfl sequence 1 2 (by decide) [1] [1, 0]
  obtain ⟨imported, -, denotes⟩ := Module.denotes_of_mem_uses (eq_ok_of_toOption surveyed) mem scope
    (place ▸ seen) leftmost (.construct found reached bound fun _ => completes)
    (fun part among => by rw [dotted, List.mem_singleton] at among; exact among ▸ undeclared)
    (fun part among other => by rw [dotted, List.mem_singleton] at among; exact absurd among other)
  exact ⟨module, survey, use, imported, parsed, eq_ok_of_toOption surveyed, mem, leftmost, denotes⟩

/-- In a loop, a call is a use although its name is local, and assigned to further down. -/
theorem uses_of_assigned_callee : ∃ module survey use,
    Module.parse? "from formkit.vue import FormKit\n\ndef form(items):\n    for el in items:\n        if el.ready:\n            FormKit(el)\n        FormKit = el.factory\n" =
        some module ∧
      Scope.survey module = .ok survey ∧ use ∈ module.uses .standard none survey ∧
        use.call.callee.leftmost? = some "FormKit" ∧
          (∃ site, survey.siteOf? use.address = some site ∧ (survey.frame site.scope).redirects = []) ∧
            ∃ (scope : Enclosing module.root use.address) (path : Address) (assign : Node),
              scope.body.part? path = some assign ∧ scope.body.reaches path = true ∧
                "FormKit" ∈ assign.binders ∧ assign.clause? = none := by
  have check : ((Module.parse? "from formkit.vue import FormKit\n\ndef form(items):\n    for el in items:\n        if el.ready:\n            FormKit(el)\n        FormKit = el.factory\n").bind
      fun module => (Scope.survey module).toOption.bind fun survey =>
        (survey.siteOf? [2, 9, 1, 6, 1, 0, 4, 1, 1, 0]).bind fun site =>
          (module.root.part? [2]).bind fun function => function.functionParts?.bind fun (_, body, index) =>
            (body.part? [1, 6, 2, 1]).map fun assign =>
              index = 9 && body.isDirect [1, 6, 1, 0, 4, 1, 1, 0] && body.reaches [1, 6, 2, 1] &&
                assign.binders.contains "FormKit" && assign.clause? = none &&
                  (survey.frame site.scope).redirects = [] &&
                    (module.uses .standard none survey).any fun use =>
                      use.address = [2, 9, 1, 6, 1, 0, 4, 1, 1, 0] &&
                        use.call.callee.leftmost? = some "FormKit") = some true := by
    decide +kernel
  obtain ⟨module, parsed, check⟩ := Option.bind_eq_some_iff.1 check
  obtain ⟨survey, surveyed, check⟩ := Option.bind_eq_some_iff.1 check
  obtain ⟨site, seen, check⟩ := Option.bind_eq_some_iff.1 check
  obtain ⟨function, stands, check⟩ := Option.bind_eq_some_iff.1 check
  obtain ⟨⟨parameters, body, index⟩, parts, check⟩ := Option.bind_eq_some_iff.1 check
  obtain ⟨assign, found, check⟩ := Option.map_eq_some_iff.1 check
  simp only [Bool.and_eq_true, decide_eq_true_eq, List.any_eq_true, List.contains_iff_mem] at check
  obtain ⟨⟨⟨⟨⟨⟨rfl, direct⟩, reached⟩, bound⟩, said⟩, undeclared⟩, use, mem, place, leftmost⟩ := check
  exact ⟨module, survey, use, parsed, eq_ok_of_toOption surveyed, mem, leftmost,
    ⟨site, place ▸ seen, undeclared⟩, ⟨[2], function, stands, parameters, body, 9, parts, _, place, direct⟩,
    _, assign, found, reached, bound, said⟩

end Graft
