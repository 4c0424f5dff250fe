import Graft.Proofs.Grafting.Report
import Graft.Proofs.Tree.Order
import Mathlib.Data.Prod.Lex

set_option autoImplicit false

/-!
The places of uses. A tree is walked in the order of its text, the brackets around its parts included, so uses
are met in the order in which they begin, and a call before the calls inside it.
-/
namespace Graft

namespace Position

/-- Lines count before columns. -/
def key (place : Position) : ℕ ×ₗ ℕ := toLex (place.line, place.column)

theorem key_le_iff {first second : Position} : first.key ≤ second.key ↔
    first.line < second.line ∨ first.line = second.line ∧ first.column ≤ second.column :=
  Prod.Lex.toLex_le_toLex

theorem advance_cons (place : Position) {c : Char} {rest : List Char}
    (apart : ∀ after, c = '\r' → rest = '\n' :: after → False) : place.advance (c :: rest) =
      if c = '\n' ∨ c = '\r' then advance ⟨place.line + 1, 0⟩ rest
      else advance ⟨place.line, place.column + 1⟩ rest := by
  rw [advance]
  exact apart

theorem key_le_advance (place : Position) (text : List Char) : place.key ≤ (place.advance text).key := by
  fun_induction advance place text with
  | case1 place => exact le_rfl
  | case2 place rest ih => exact le_trans (key_le_iff.2 (.inl (by simp))) ih
  | case3 place c rest _ _ ih => exact le_trans (key_le_iff.2 (.inl (by simp))) ih
  | case4 place c rest _ _ ih => exact le_trans (key_le_iff.2 (.inr (by simp))) ih

theorem advance_le_advance_append (place : Position) (text more : List Char) :
    (place.advance text).key ≤ (place.advance (text ++ more)).key := by
  fun_induction advance place text with
  | case1 place => exact key_le_advance place more
  | case2 place rest ih => simpa [advance] using ih
  | case3 place c rest apart ends ih =>
    rw [List.cons_append]
    by_cases joined : ∃ after, c = '\r' ∧ rest ++ more = '\n' :: after
    next =>
      -- The return ends the text, and a line feed after it ends the same line.
      obtain ⟨after, rfl, split⟩ := joined
      cases rest with
      | nil =>
        rw [split, advance]
        exact key_le_advance _ _
      | cons d rest => exact (apart rest rfl (by simp_all)).elim
    next =>
      rw [advance_cons place fun after feed split => joined ⟨after, feed, split⟩, if_pos ends]
      exact ih
  | case4 place c rest apart inside ih =>
    rw [List.cons_append, advance_cons place fun _ feed _ => inside (.inr feed), if_neg inside]
    exact ih

end Position

namespace Node

theorem opening_prefix_leaves (node : Node) : node.parens.opening <+: node.leaves := by
  cases node with
  | leaf l => exact List.nil_prefix
  | name parens id => exact List.prefix_append _ _
  | branch kind parens nodes => exact (List.prefix_append _ _).trans (List.prefix_append _ _)

/-- What is written before a part is also written before the parts that a walk meets after it. -/
theorem leavesBefore_prefix {root node : Node} {first second : Address}
    (found : root.part? first = some node) (less : first < second) :
    root.leavesBefore first <+: root.leavesBefore second := by
  induction first generalizing root second with
  | nil =>
    obtain _ | ⟨j, second⟩ := second
    next => exact absurd less (by simp)
    rw [leavesBefore, leavesBefore, List.append_assoc]
    exact List.prefix_append _ _
  | cons i first ih =>
    obtain _ | ⟨j, second⟩ := second
    next => exact absurd less (by simp)
    obtain lower | ⟨rfl, inner⟩ := List.cons_lt_cons_iff.1 less
    next =>
      obtain ⟨before, between, opened, passed⟩ :=
        leavesBefore_of_precedes found (Address.precedes_cons.2 (.inl lower))
      rw [opened, passed, List.append_assoc, List.prefix_append_right_inj]
      exact (opening_prefix_leaves node).trans (List.prefix_append _ _)
    next =>
      rw [part?_cons, Option.bind_eq_some_iff] at found
      obtain ⟨child, here, found⟩ := found
      simp only [leavesBefore, here, List.prefix_append_right_inj]
      exact ih found inner

end Node

theorem renderLeaves_prefix (layout : Layout) {first second : List Leaf} (begins : first <+: second) :
    (renderLeaves layout first).toList <+: (renderLeaves layout second).toList := by
  obtain ⟨rest, rfl⟩ := begins
  simp [renderLeaves, String.toList_join]

namespace Module

theorem positionOf_le {module : Module} {node : Node} {first second : Address}
    (found : module.root.part? first = some node) (less : first < second) :
    (module.positionOf first).key ≤ (module.positionOf second).key := by
  obtain ⟨rest, split⟩ := renderLeaves_prefix module.layout (Node.leavesBefore_prefix found less)
  simp only [positionOf, ← split]
  exact Position.advance_le_advance_append _ _ _

/-- The uses of a module, if its scopes can be told apart. -/
def findUses (module : Module) (settings : Settings) (file : Option String) : Except Fault (List Use) :=
  (Scope.survey module).map (module.uses settings file)

/-- A call at an address that can only be one of a recognised export: all that its callee may refer to, by the
scopes of the module, is imported, and is that export. Where the scopes cannot be told apart, no callee refers
to anything. -/
def Invokes (module : Module) (settings : Settings) (address : Address) (factory : Export) : Prop :=
  ∃ survey node call site qualified, Scope.survey module = .ok survey ∧
    module.root.part? address = some node ∧ Call.ofNode? node = some call ∧
    survey.siteOf? address = some site ∧ survey.referents site call.callee ≠ [] ∧
    (∀ referent ∈ survey.referents site call.callee, referent = .imported qualified) ∧
    settings.factoryTable.lookup qualified = some factory

variable {module : Module} {settings : Settings} {file : Option String} {survey : Scope.Survey}

theorem exists_mem_uses_iff (surveyed : Scope.survey module = .ok survey) {address : Address}
    {factory : Export} :
    (∃ use ∈ module.uses settings file survey, use.address = address ∧ use.factory = factory) ↔
      module.Invokes settings address factory := by
  constructor
  next =>
    rintro ⟨use, mem, rfl, rfl⟩
    obtain ⟨found, called, recognised⟩ := mem_uses mem
    simp only [Use.factoryOf?, Option.bind_eq_bind, Option.bind_eq_some_iff] at recognised
    obtain ⟨site, seen, qualified, agrees, listed⟩ := recognised
    obtain ⟨some, same⟩ := Scope.agreed?_eq_some_iff.1 agrees
    exact ⟨survey, use.node, use.call, site, qualified, surveyed, found, called, seen, some, same, listed⟩
  next =>
    rintro ⟨again, node, call, site, qualified, known, found, called, seen, some, same, listed⟩
    obtain rfl := Except.ok.inj (surveyed.symm.trans known)
    have recognised : Use.factoryOf? settings survey address call = .some factory := by
      simp [Use.factoryOf?, seen, Scope.agreed?_eq_some_iff.2 ⟨some, same⟩, listed]
    obtain ⟨use, mem, here, -, made⟩ := exists_mem_uses found called recognised
    exact ⟨use, mem, here, made⟩

theorem place_of_mem_uses {use : Use} (mem : use ∈ module.uses settings file survey) :
    use.place = ⟨file, some (module.positionOf use.address).line,
      some (module.positionOf use.address).column⟩ := by
  obtain ⟨located, -, read⟩ := List.mem_filterMap.1 mem
  simp only [Use.ofNode?, Option.bind_eq_bind, Option.bind_eq_some_iff] at read
  obtain ⟨call, -, factory, -, made⟩ := read
  rw [← Option.some.inj made]

theorem findUses_eq_ok_iff {uses : List Use} : module.findUses settings file = .ok uses ↔
    ∃ survey, Scope.survey module = .ok survey ∧ module.uses settings file survey = uses := by
  unfold findUses
  cases Scope.survey module <;> simp [Except.map]

end Module

/-- The calls of recognised exports are found, each of them once, and nothing else is. They are listed with the
places where they begin: none begins before an earlier one, and none is around an earlier one. -/
theorem Module.findUses_in_document_order (module : Module) (settings : Settings) (file : Option String) :
    (∀ address factory, module.Invokes settings address factory ↔
      ∃ uses, module.findUses settings file = .ok uses ∧
        ∃ use ∈ uses, use.address = address ∧ use.factory = factory) ∧
    ∀ uses, module.findUses settings file = .ok uses →
      (uses.map Use.address).Nodup ∧
      (∀ use ∈ uses, module.root.part? use.address = some use.node ∧ Call.ofNode? use.node = some use.call ∧
        use.place = ⟨file, some (module.positionOf use.address).line,
          some (module.positionOf use.address).column⟩) ∧
      (uses.Pairwise fun first second =>
        (module.positionOf first.address).key ≤ (module.positionOf second.address).key) ∧
      uses.Pairwise fun first second => ¬ second.address <+: first.address := by
  constructor
  next =>
    intro address factory
    constructor
    next =>
      intro invokes
      obtain ⟨survey, -, -, -, -, surveyed, -⟩ := id invokes
      exact ⟨_, findUses_eq_ok_iff.2 ⟨survey, surveyed, rfl⟩, (exists_mem_uses_iff surveyed).2 invokes⟩
    next =>
      rintro ⟨uses, found, use⟩
      obtain ⟨survey, surveyed, rfl⟩ := findUses_eq_ok_iff.1 found
      exact (exists_mem_uses_iff surveyed).1 use
  next =>
    intro uses found
    obtain ⟨survey, surveyed, rfl⟩ := findUses_eq_ok_iff.1 found
    have ascend := List.pairwise_map.1 (@uses_ascend settings file module survey)
    refine ⟨?_, fun use mem => ?_, ?_, ?_⟩
    next =>
      refine List.pairwise_map.2 (ascend.imp ?_)
      intro first second less same
      exact List.lt_irrefl _ (same ▸ less)
    next =>
      obtain ⟨part, called, -⟩ := mem_uses mem
      exact ⟨part, called, place_of_mem_uses mem⟩
    next => exact ascend.imp_of_mem fun mem _ less => positionOf_le (mem_uses mem).1 less
    next =>
      -- What is around a part has a front of its address, and so comes first.
      exact ascend.imp fun less front => front.le less

/-- One call inside another. The brackets around the outer one do not belong to it, and those around its callee
do. -/
theorem Module.findUses_in_document_order_nested : ∃ module outer inner,
    Module.parse? "from formkit.vue import FormKit\n((FormKit)(FormKit(el)))\n" = some module ∧
      module.findUses .standard none = .ok [outer, inner] ∧
      outer.place = ⟨none, some 2, some 1⟩ ∧ inner.place = ⟨none, some 2, some 11⟩ ∧
      (module.positionOf outer.address).key ≤ (module.positionOf inner.address).key ∧
      ¬ inner.address <+: outer.address := by
  have check : ((Module.parse? "from formkit.vue import FormKit\n((FormKit)(FormKit(el)))\n").bind
      fun module => (module.findUses .standard none).toOption.map fun uses => uses.map Use.place) =
        some [⟨none, some 2, some 1⟩, ⟨none, some 2, some 11⟩] := by
    decide +kernel
  obtain ⟨module, parsed, check⟩ := Option.bind_eq_some_iff.1 check
  obtain ⟨uses, found, places⟩ := Option.map_eq_some_iff.1 check
  obtain ⟨outer, others, rfl, first, more⟩ := List.map_eq_cons_iff.1 places
  obtain ⟨inner, rest, rfl, second, none⟩ := List.map_eq_cons_iff.1 more
  obtain rfl := List.map_eq_nil_iff.1 none
  have found := eq_ok_of_toOption found
  obtain ⟨-, ordered⟩ := Module.findUses_in_document_order module .standard .none
  obtain ⟨-, -, begins, around⟩ := ordered _ found
  exact ⟨module, outer, inner, parsed, found, first, second, by simpa using begins, by simpa using around⟩

end Graft
