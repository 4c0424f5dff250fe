import Graft.Proofs.Grafting.Again
import Graft.Proofs.Grafting.Leading
import Graft.Proofs.Grafting.Utters
import Graft.Proofs.Scope.Own

set_option autoImplicit false

/-!
The names of the new imports. No name of the module is spelled like one of them, and in the module that
is written each has one binding, that of its own import, apart from what strings may bind.
-/
namespace Graft

open Node

namespace Scope

section

variable {all : Bool} {name : String} {found : List Binding} {read : List Char → Step}

theorem loadAll_keeps {Holds : Survey → Prop} {nodes : List Node} (index : Nat)
    (each : ∀ (i : Nat) node, nodes[i]? = some node →
      (stepOf read node).Keeps Holds (some [index + i])) :
    (loadAll (stepOf.partsOf read index nodes)).Keeps Holds (some []) := by
  refine Step.all_keeps fun step mem => ?_
  obtain ⟨part, among, rfl⟩ := List.mem_map.1 mem
  obtain ⟨i, node, here, rfl⟩ := mem_partsOf.1 among
  intro context before after top holds done
  refine each i node here (child (loading context) (index + i)) before after ?_ holds done
  simp [child, loading, top]

theorem importLine_keeps {line : Node} {wanted : Export} {bound : String}
    (imports : ImportsAs line wanted bound) (valid : isIdentifier bound = true) (apart : bound ≠ name)
    (address : Option Address) : (stepOf read line).Keeps (Survey.Owns all name found) address := by
  intro context before after _ owns done
  rw [stepOf_importLine imports valid] at done
  obtain rfl := Except.ok.inj done
  exact (owns.bind (.inl apart) _ _).tick _

theorem importLine_owns {line : Node} {wanted : Export} {bound : String}
    (imports : ImportsAs line wanted bound) (valid : isIdentifier bound = true) {context : Context}
    (module : context.scope = 0) {address : Address} (stands : context.address = some address)
    {before after : Survey} (owns : Survey.Owns all bound [] before)
    (done : stepOf read line context before = .ok after) :
    ∃ binding, Survey.Owns all bound [binding] after ∧ binding.clause = some (wanted.clause bound) ∧
      binding.origin = some (address ++ [1]) := by
  rw [stepOf_importLine imports valid, module, stands, Option.map_some] at done
  obtain rfl := Except.ok.inj done
  obtain ⟨binding, counted, among, clause, origin⟩ := Survey.counted_bind_module owns.grounded
    owns.counted (some (wanted.clause bound)) (address ++ [1])
  refine ⟨binding, Survey.Owns.tick ⟨?_, counted, ?_⟩ 0, clause, origin⟩
  next => exact Survey.isGrounded_updateFrame (fun _ _ => rfl) owns.grounded
  next => simpa using among

end

end Scope

variable {settings : Settings} {file : Option String} {tally : Tally} {module : Module}
  {survey : Scope.Survey} {given : List (Address × Node)} {added : List (Export × String)}
  {lines : List Node}

/-- The statements of a written module: the new imports, and those it had with their configurations. -/
theorem Module.getElem?_written {i : Nat} {node : Node}
    (here : ((module.inject given).insertLeading lines).root.children[i]? = some node) :
    (∃ k, i = module.leadingEnd + 1 + k ∧ lines[k]? = some node) ∨
      ∃ (j : Nat) (original : Node), module.root.children[j]? = some original ∧
        node = original.inject given [j] := by
  have stands : ((module.inject given).insertLeading lines).root.part? [i] = some node := by
    rw [part?_cons, here]
    rfl
  obtain ⟨j, same⟩ | ⟨k, new, rfl⟩ := (module.inject given).exists_shifted lines.length i []
  next =>
    rw [same, part?_insertLeading _ _ (by simp), root_inject, inject_of_isA given [] rfl,
      part?_injectParts, Option.bind_eq_some_iff] at stands
    obtain ⟨original, found, made⟩ := stands
    exact .inr ⟨j, original, found, (Option.some.inj made).symm⟩
  next =>
    rw [part?_inserted _ new, Option.bind_eq_some_iff] at stands
    obtain ⟨line, among, same⟩ := stands
    exact .inl ⟨k, by rw [leadingEnd_inject], Option.some.inj same ▸ among⟩

namespace Grafts

variable (grafts : Grafts settings file tally module survey given added lines)

include grafts

theorem getElem?_lines (k : Nat) : (∀ entry, added[k]? = some entry →
      ∃ line, lines[k]? = some line ∧ ImportsAs line entry.1 entry.2) ∧
    ∀ line, lines[k]? = some line → ∃ entry, added[k]? = some entry ∧ ImportsAs line entry.1 entry.2 := by
  have written := congrArg (·[k]?) grafts.lines
  simp only [List.getElem?_map] at written
  constructor
  next =>
    intro entry among
    obtain ⟨importable, valid⟩ := grafts.importable entry (List.mem_of_getElem? among)
    obtain ⟨line, made, imports⟩ := importLine_eq_ok importable valid
    exact ⟨line, by simpa [among, made] using written, imports⟩
  next =>
    intro line stands
    rw [stands, Option.map_some, eq_comm, Option.map_eq_some_iff] at written
    obtain ⟨entry, among, spelled⟩ := written
    obtain ⟨importable, valid⟩ := grafts.importable entry (List.mem_of_getElem? among)
    obtain ⟨_, made, imports⟩ := importLine_eq_ok importable valid
    exact ⟨entry, among, Except.ok.inj (spelled.symm.trans made) ▸ imports⟩

theorem ne_of_ne {j k : Nat} (apart : j ≠ k) {first second : Export × String}
    (here : added[j]? = some first) (there : added[k]? = some second) : first.2 ≠ second.2 := by
  intro same
  have distinct := grafts.distinct
  have left : (added.map (·.2))[j]? = some first.2 := by rw [List.getElem?_map, here]; rfl
  have right : (added.map (·.2))[k]? = some first.2 := by rw [List.getElem?_map, there, same]; rfl
  exact apart ((List.getElem?_inj (List.getElem?_eq_some_iff.1 left).1 distinct).1
    (left.trans right.symm))

/-- Every statement of the written module but the import of a name keeps the bindings of that name that
count. Where all count, no string of the module may mention it. -/
theorem keeps_owns (wellFormed : module.wellFormed = true) {k : Nat} {entry : Export × String}
    (here : added[k]? = some entry) {all : Bool} (unquoted : all = true → ¬ Scope.Quotes module.root entry.2)
    (found : List Scope.Binding) (fuel : Nat) {i : Nat} {node : Node}
    (stands : ((module.inject given).insertLeading lines).root.children[i]? = some node)
    (other : i ≠ module.leadingEnd + 1 + k) :
    (Scope.stepOf (Scope.readText fuel) node).Keeps (Scope.Survey.Owns all entry.2 found) (some [i]) := by
  have mem := List.mem_of_getElem? here
  obtain ⟨j, rfl, among⟩ | ⟨j, original, among, rfl⟩ := Module.getElem?_written stands
  next =>
    obtain ⟨second, there, imports⟩ := (grafts.getElem?_lines j).2 node among
    exact Scope.importLine_keeps imports (grafts.importable _ (List.mem_of_getElem? there)).2
      (grafts.ne_of_ne (by rintro rfl; exact other rfl) there here) _
  next =>
    have valid := (grafts.importable entry mem).2
    have word := grafts.words entry mem
    -- The name is new to the module, so no statement of it binds the name or looks it up.
    have strange : Scope.Strange module.root [entry.2] := by
      refine ⟨?_, Scope.none_not_mem ?_, ?_⟩ <;> simp only [List.mem_singleton, forall_eq]
      next => exact valid
      next => exact word
      next => exact grafts.free entry mem
    have blank := strange.empty.not_mem
    have quiet (address : Address) (config : Node) (gift : given.lookup address = some config) :
        Scope.IsQuiet (Scope.readText fuel) config := by
      obtain ⟨bindings, library, rfl⟩ := (grafts.configures.of_lookup gift).1
      exact Scope.isQuiet_configOf (Scope.readText_idle _ fuel Scope.isSilentText_plugins) bindings library
    have below : module.root.part? [j] = some original := by
      rw [part?_cons, among]
      rfl
    have whole := wellFormed_part? (Module.wellFormed_root wellFormed) below
    have alone (path : Address) (part : Node) (found : original.part? path = some part) :
        Scope.Says (fun name _ => name ∉ [entry.2]) (fun text => all = true → ¬ Scope.Mentions entry.2 text)
          part := by
      have mem : part ∈ module.root.nodes :=
        mem_nodes.2 ⟨[j] ++ path, by rw [part?_append, below, Option.bind_some, found]⟩
      exact ⟨strange.speaks mem, fun value valued counts mentions =>
        unquoted counts ⟨part, mem, value, valued, mentions⟩⟩
    refine Scope.Step.keeps_iff.2 (Scope.stepOf_utters blank
      (Scope.owns_keptWhere ((module.inject given).insertLeading lines).root all entry.2 found).mirror
      (fun text fine => Scope.Step.keeps_iff.1 (Scope.readText_keeps_owns valid word fuel fine))
      (Scope.utters_inject blank quiet whole alone [j]) fun place top => ?_)
    rw [← Option.some.inj top, part?_cons, stands]
    rfl

/-- In the module that is written, the name of a new import has no binding that counts but that import,
which stands in the scope of the module. -/
theorem counted (wellFormed : module.wellFormed = true) {after : Scope.Survey}
    (surveyed : Scope.survey ((module.inject given).insertLeading lines) = .ok after) {k : Nat}
    {entry : Export × String} (here : added[k]? = some entry) {all : Bool}
    (unquoted : all = true → ¬ Scope.Quotes module.root entry.2) :
    ∃ binding, after.counted all entry.2 = [binding] ∧ binding ∈ (after.frame 0).bindings ∧
      binding.clause = some (entry.1.clause entry.2) ∧
        binding.origin = some [module.leadingEnd + 1 + k, 1] := by
  have mem := List.mem_of_getElem? here
  obtain ⟨line, stands, imports⟩ := (grafts.getElem?_lines k).1 entry here
  have place : ((module.inject given).insertLeading lines).root.children[module.leadingEnd + 1 + k]? =
      some line := by
    have inserted := (module.inject given).part?_inserted (List.getElem?_eq_some_iff.1 stands).1 []
    rw [Module.leadingEnd_inject, stands, part?_cons, Option.bind_some] at inserted
    exact (Option.bind_fun_some _).symm.trans inserted
  have keeps (found : List Scope.Binding) (fuel i : Nat) (node : Node) := @keeps_owns _ _ _ _ _ _ _ _
    grafts wellFormed k entry here all unquoted found fuel i node
  rw [Scope.survey, Scope.stepOf_module] at surveyed
  generalize (renderLeaves _ _).length = fuel at surveyed
  -- The survey is cut at the import: before it the name is not bound, and behind it not bound again.
  obtain ⟨first, second, before, ran, later⟩ := Scope.loadAll_split place surveyed
  have initial : Scope.Survey.Owns all entry.2 [] .initial := by
    refine ⟨⟨_, rfl, rfl⟩, ?_, by simp⟩
    simp [Scope.Survey.counted, Scope.Survey.bindingsOf, Scope.Survey.initial]
  have unbound : Scope.Survey.Owns all entry.2 [] first := by
    refine Scope.loadAll_keeps 0 (fun i node among => ?_) _ _ _ rfl initial before
    rw [List.getElem?_take, Option.ite_none_right_eq_some] at among
    exact keeps [] fuel _ node (by simpa using among.2) (by omega)
  obtain ⟨binding, bound, clause, origin⟩ := Scope.importLine_owns imports
    (grafts.importable entry mem).2 rfl rfl unbound ran
  have owns : Scope.Survey.Owns all entry.2 [binding] after := by
    refine Scope.loadAll_keeps _ (fun i node among => ?_) _ _ _ rfl bound later
    rw [List.getElem?_drop] at among
    exact keeps [binding] fuel _ node among (by omega)
  exact ⟨binding, owns.counted, owns.module binding (by simp), clause, origin⟩

end Grafts

/-- No name of the module is spelled like a new import, no two new imports bind the same name, and in
the tree that is written each is bound by its own import only. If no string of the module mentions the
name either, that is its only binding, and no scope sees another. -/
theorem graft_newNames_bound {source : String} (parsed : Module.parse? source = some module)
    {written : Module} (done : (graft settings file tally module).result = .ok (some written)) :
    ∃ (given : List (Address × Node)) (added : List (Export × String)) (lines : List Node),
      written = (module.inject given).insertLeading lines ∧
        lines.map .ok = (added.map fun entry => importLine entry.1 entry.2) ∧
          (added.map (·.2)).Nodup ∧ ∀ (k : Nat) entry, added[k]? = some entry → entry.2 ∉ module.root.identifiers ∧
            ∀ after, Scope.survey written = .ok after → ∃ binding ∈ (after.frame 0).bindings,
              binding.clause = some (entry.1.clause entry.2) ∧
                binding.origin = some [module.leadingEnd + 1 + k, 1] ∧
                  after.counted false entry.2 = [binding] ∧
                    (¬ Scope.Quotes module.root entry.2 → after.bindingsOf entry.2 = [binding] ∧
                      ∀ scope, ∀ other ∈ (after.resolve entry.2 scope).2, other = binding) := by
  have wellFormed := Module.wellFormed_of_parse? parsed
  obtain ⟨survey, -, -, given, added, lines, grafts⟩ := grafts_of_ok wellFormed done
  have same : written = (module.inject given).insertLeading lines := by
    rw [grafts.result] at done
    split at done
    next => exact absurd done (by simp)
    next => exact (Option.some.inj (Except.ok.inj done)).symm
  refine ⟨given, added, lines, same, grafts.lines, grafts.distinct, fun k entry here =>
    ⟨grafts.free entry (List.mem_of_getElem? here), fun after surveyed => ?_⟩⟩
  rw [same] at surveyed
  obtain ⟨binding, tree, module, clause, origin⟩ := grafts.counted wellFormed surveyed here
    fun never : false = true => absurd never (by decide)
  refine ⟨binding, module, clause, origin, tree, fun unquoted => ?_⟩
  obtain ⟨only, every, -, -, place⟩ := grafts.counted wellFormed surveyed here
    fun _ : true = true => unquoted
  rw [Scope.Survey.counted_all] at every
  -- The binding that counts in the tree is among all of them.
  have among : binding ∈ after.bindingsOf entry.2 := by
    have mem : binding ∈ after.counted false entry.2 := by simp [tree]
    exact (List.mem_filter.1 mem).1
  obtain rfl : binding = only := by simpa [every] using among
  refine ⟨every, fun scope other mem => ?_⟩
  simpa [every] using Scope.Survey.mem_bindingsOf_of_resolve mem

/-- A call in a module without strings is given a name with one binding. -/
theorem graft_newName_bound_plain_call : ∃ module written after name binding,
    Module.parse? "from formkit.vue import FormKit\nFormKit(el)\n" = some module ∧
      (graft .standard none {} module).result = .ok (some written) ∧ Scope.survey written = .ok after ∧
        name ∉ module.root.identifiers ∧ binding ∈ (after.frame 0).bindings ∧
          after.bindingsOf name = [binding] := by
  have check : ((Module.parse? "from formkit.vue import FormKit\nFormKit(el)\n").bind fun module =>
      (graft .standard none {} module).result.toOption.join.bind fun written =>
        (Scope.survey written).toOption.map fun _ =>
          module.body.length != written.body.length &&
            module.root.nodes.all fun node => (Scope.valueOf? node).toOption.any Option.isNone) =
        some true := by
    decide +kernel
  obtain ⟨module, parsed, check⟩ := Option.bind_eq_some_iff.1 check
  obtain ⟨written, found, check⟩ := Option.bind_eq_some_iff.1 check
  obtain ⟨after, surveyed, check⟩ := Option.map_eq_some_iff.1 check
  rw [Bool.and_eq_true, bne_iff_ne, List.all_eq_true] at check
  obtain ⟨longer, plain⟩ := check
  have done := eq_ok_of_toOption (Option.join_eq_some_iff.1 found)
  have unquoted (name : String) : ¬ Scope.Quotes module.root name := by
    rintro ⟨node, mem, value, valued, -⟩
    exact absurd (plain node mem) (by simp [valued, Except.toOption])
  obtain ⟨given, added, lines, same, spelled, -, each⟩ := graft_newNames_bound parsed done
  cases added with
  | nil =>
    obtain rfl : lines = [] := by simpa using spelled
    exact absurd (by simp [same, Module.insertLeading, Module.inject]) longer
  | cons entry rest =>
    obtain ⟨free, bound⟩ := each 0 entry rfl
    obtain ⟨binding, module, -, -, -, once⟩ := bound after (eq_ok_of_toOption surveyed)
    exact ⟨_, written, after, entry.2, binding, parsed, done, eq_ok_of_toOption surveyed, free, module,
      (once (unquoted entry.2)).1⟩

/-- A hint that is written as a string comes to mean a new import. -/
theorem graft_captures_hint : ∃ module survey written after hint text binding,
    Module.parse? "from formkit.vue import FormKit\nfrom models import *\n\ndef form(el: \"bindings\"):\n    return FormKit(el)\n" =
        some module ∧
      Scope.survey module = .ok survey ∧ (graft .standard none {} module).result = .ok (some written) ∧
        Scope.survey written = .ok after ∧ hint ∈ module.root.nodes ∧ hint.isA .hint = true ∧
          text ∈ hint.nodes ∧ Scope.valueOf? text = .ok (some (.text "bindings".toList)) ∧
            survey.resolve "bindings" 0 = (0, []) ∧ after.resolve "bindings" 0 = (0, [binding]) ∧
              binding.clause = some ⟨"formkit.vue", [("bindings", none)]⟩ := by
  have check : ((Module.parse? "from formkit.vue import FormKit\nfrom models import *\n\ndef form(el: \"bindings\"):\n    return FormKit(el)\n").bind
      fun module => (Scope.survey module).toOption.bind fun survey =>
        (graft .standard none {} module).result.toOption.join.bind fun written =>
          (Scope.survey written).toOption.map fun after =>
            (module.root.nodes.any fun hint => hint.isA .hint && hint.nodes.any fun text =>
              (Scope.valueOf? text).toOption = some (some (.text "bindings".toList))) &&
              survey.resolve "bindings" 0 = (0, []) &&
                ((after.resolve "bindings" 0).1 = 0 && ((after.resolve "bindings" 0).2.map (·.clause)) =
                  [some ⟨"formkit.vue", [("bindings", none)]⟩])) = some true := by
    decide +kernel
  obtain ⟨module, parsed, check⟩ := Option.bind_eq_some_iff.1 check
  obtain ⟨survey, first, check⟩ := Option.bind_eq_some_iff.1 check
  obtain ⟨written, done, check⟩ := Option.bind_eq_some_iff.1 check
  obtain ⟨after, second, check⟩ := Option.map_eq_some_iff.1 check
  simp only [Bool.and_eq_true, List.any_eq_true, decide_eq_true_eq] at check
  obtain ⟨⟨⟨hint, mem, is, text, inner, value⟩, unknown⟩, owner, known⟩ := check
  obtain ⟨binding, bound, clause⟩ := List.map_eq_singleton_iff.1 known
  exact ⟨module, survey, written, after, hint, text, binding, parsed, eq_ok_of_toOption first,
    eq_ok_of_toOption (Option.join_eq_some_iff.1 done), eq_ok_of_toOption second, mem, is, inner,
    eq_ok_of_toOption value, unknown, Prod.ext owner bound, clause⟩

end Graft
