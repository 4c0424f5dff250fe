import Graft.Proofs.Scope.Sites

set_option autoImplicit false

/-!
What is surely surveyed: the parts that a node takes in its own scope whatever the names in it mean.
-/
namespace Graft

namespace Scope

/-- Whether an act surely takes a part, in its own scope. The first argument of a call may be the name of
a new type, which is not surveyed; and literals side by side may be a hint. -/
def Act.takes (count i : Nat) : Act → Bool
  | .load part | .store part => part == i
  | .andThen first second => first.takes count i || second.takes count i
  | .each | .alike | .hints | .subscript => decide (i < count)
  | .call => i == 0 || i == 2
  | .arguments => decide (0 < i ∧ i < count)
  | _ => false

end Scope

/-- Whether a part is surely surveyed in the scope of its node. -/
def Node.takes : Node → Nat → Bool
  | .branch kind _ parts, i => (Scope.rule kind parts.length).takes parts.length i
  | _, _ => false

/-- Whether what stands below a node is surely surveyed in the scope of the node. -/
def Node.reaches (node : Node) : Address → Bool
  | [] => true
  | i :: rest => node.takes i && (node.children[i]?).any (·.reaches rest)

namespace Scope

section

variable {root node : Node} {fuel : Nat} {address : Option Address} {Allows : Nat → Nat → Nat → Prop}

theorem Step.Visits.grows {step : Step} (visits : step.Visits fuel node address Allows) {context : Context}
    {before after : Survey} (done : step context before = .ok after) (top : context.address = address) :
    before.Grows after :=
  (visits context before after top done).1

theorem all_takes {steps : List Step} (visits : ∀ step ∈ steps, step.Visits fuel node address Allows)
    {step : Step} (mem : step ∈ steps) {context : Context} {before after : Survey}
    (top : context.address = address) (done : Step.all steps context before = .ok after) :
    ∃ first second, before.Grows first ∧ step context first = .ok second ∧ second.Grows after := by
  induction steps generalizing before with
  | nil => exact absurd mem (by simp)
  | cons head rest ih =>
    rw [Step.all_cons] at done
    obtain ⟨between, ran, ended⟩ := bind_eq_ok.1 done
    have later := fun other (among : other ∈ rest) => visits other (by simp [among])
    obtain rfl | among := List.mem_cons.1 mem
    next => exact ⟨before, between, .refl before, ran, (Step.Visits.all later).grows ended top⟩
    next =>
      obtain ⟨first, second, early, taken, late⟩ := ih later among ended
      exact ⟨first, second, ((visits head (by simp)).grows ran top).trans early, taken, late⟩

/-- Steps of parts change the context in many ways, but mostly leave its scope. -/
theorem exists_in_scope {i : Nat} {taken : Node} {context inner : Context} {before after : Survey}
    (takes : ∃ run : Run fuel node [i] address before after, run.part = taken ∧ run.context = inner)
    (same : inner.scope = context.scope) :
    ∃ run : Run fuel node [i] address before after, run.part = taken ∧
      run.context.scope = context.scope := by
  obtain ⟨run, part, rfl⟩ := takes
  exact ⟨run, part, same⟩

/-- A list of parts in which some part of the node is, with what is done to them. -/
theorem chosen_takes {chosen : List Part} (adjust : Context → Context)
    (place : ∀ context, (adjust context).address = context.address)
    (scope : ∀ context, (adjust context).scope = context.scope)
    (stay : ∀ part ∈ chosen, part.Stays fuel node address) {i : Nat} {taken : Node}
    (here : node.children[i]? = some taken)
    (mem : ⟨taken, (stepOf (readText fuel) taken).adapted (child · i)⟩ ∈ chosen) {context : Context}
    {before after : Survey}
    (done : Step.all (chosen.map fun part => part.step.adapted adjust) context before = .ok after)
    (top : context.address = address) :
    ∃ run : Run fuel node [i] address before after, run.part = taken ∧
      run.context = child (adjust context) i := by
  have visits : ∀ step ∈ chosen.map fun part => part.step.adapted adjust,
      step.Visits fuel node address fun _ scope outer => scope = outer := by
    intro step mapped
    obtain ⟨part, among, rfl⟩ := List.mem_map.1 mapped
    exact (stay part among).adapted scope place
  obtain ⟨first, second, early, ran, late⟩ := all_takes visits (List.mem_map_of_mem mem) top done
  refine ⟨⟨taken, child (adjust context) i, first, second, ?_, ?_, early, ran, late⟩, rfl, rfl⟩
  next => rw [Node.part?_cons, here]; rfl
  next => simp [child, place, top]

theorem partAt_takes {i : Nat} {taken : Node} (here : node.children[i]? = some taken) {context : Context}
    {before after : Survey}
    (done : (partAt (stepOf.partsOf (readText fuel) 0 node.children) i).step context before = .ok after)
    (top : context.address = address) :
    ∃ run : Run fuel node [i] address before after, run.part = taken ∧ run.context = child context i := by
  unfold partAt at done
  rw [List.getD_eq_getElem?_getD, getElem?_partsOf, here] at done
  simp only [Option.map_some, Option.getD_some, Nat.zero_add] at done
  refine ⟨⟨taken, child context i, before, after, ?_, ?_, .refl before, done, .refl after⟩, rfl, rfl⟩
  next => rw [Node.part?_cons, here]; rfl
  next => simp [child, top]

theorem mem_partsOf_of_getElem? {i : Nat} {taken : Node} (here : node.children[i]? = some taken) :
    ⟨taken, (stepOf (readText fuel) taken).adapted (child · i)⟩ ∈
      stepOf.partsOf (readText fuel) 0 node.children :=
  mem_partsOf.2 ⟨i, taken, here, by rw [Nat.zero_add]⟩

variable (below : ∀ (i : Nat) part, node.children[i]? = some part →
  ∀ found, address.map (· ++ [i]) = some found → root.part? found = some part)

include below

theorem loadAll_takes {i : Nat} {taken : Node} (here : node.children[i]? = some taken) {context : Context}
    {before after : Survey}
    (done : loadAll (stepOf.partsOf (readText fuel) 0 node.children) context before = .ok after)
    (top : context.address = address) : ∃ run : Run fuel node [i] address before after, run.part = taken ∧
      run.context = child (loading context) i :=
  chosen_takes loading (fun _ => rfl) (fun _ => rfl) (stays_partsOf below) here
    (mem_partsOf_of_getElem? here) done top

theorem alike_takes {i : Nat} {taken : Node} (here : node.children[i]? = some taken) {context : Context}
    {before after : Survey} (done : Step.all ((stepOf.partsOf (readText fuel) 0 node.children).map
      Part.step) context before = .ok after) (top : context.address = address) :
    ∃ run : Run fuel node [i] address before after, run.part = taken ∧ run.context = child context i :=
  chosen_takes id (fun _ => rfl) (fun _ => rfl) (stays_partsOf below) here
    (mem_partsOf_of_getElem? here) done top

/-- Of the arguments all but the first are surely surveyed. -/
theorem onArguments_takes {i : Nat} (later : 0 < i) {taken : Node}
    (here : node.children[i]? = some taken) {context : Context} {before after : Survey}
    (top : context.address = address)
    (done : onArguments (stepOf.partsOf (readText fuel) 0 node.children) context before = .ok after) :
    ∃ run : Run fuel node [i] address before after, run.part = taken ∧
      run.context.scope = context.scope := by
  have stay := @stays_partsOf _ fuel _ _ below
  have among := getElem?_partsOf (readText fuel) 0 node.children i
  rw [here, Option.map_some, Nat.zero_add] at among
  have whole : loadAll (stepOf.partsOf (readText fuel) 0 node.children) (loading context) before =
      .ok after → ∃ run : Run fuel node [i] address before after, run.part = taken ∧
        run.context.scope = context.scope :=
    fun done => exists_in_scope (loadAll_takes below here done top) rfl
  cases parts : stepOf.partsOf (readText fuel) 0 node.children with
  | nil => exact absurd among (by simp [parts])
  | cons first rest =>
    -- The first argument may be the name of a new type, so what is said of the others is said of the rest.
    have other : ⟨taken, (stepOf (readText fuel) taken).adapted (child · i)⟩ ∈ rest := by
      obtain ⟨j, rfl⟩ := Nat.exists_eq_succ_of_ne_zero (Nat.ne_of_gt later)
      rw [parts, List.getElem?_cons_succ] at among
      exact List.mem_of_getElem? among
    have stays : ∀ part ∈ rest, part.Stays fuel node address := fun part mem => stay part (by simp [parts, mem])
    cases called : context.call with
    | none =>
      simp only [onArguments, called] at done
      exact whole done
    | newType =>
      simp only [onArguments, called, parts] at done
      exact exists_in_scope
        (chosen_takes loading (fun _ => rfl) (fun _ => rfl) stays here other done top) rfl
    | cast =>
      simp only [onArguments, called, parts] at done
      obtain ⟨between, ran, ended⟩ := bind_eq_ok.1 done
      obtain ⟨run, same, scope⟩ := exists_in_scope
        (chosen_takes loading (fun _ => rfl) (fun _ => rfl) stays here other ended top) rfl
      have early := (Step.Visits.load (stay first (by simp [parts]))).grows ran top
      exact ⟨run.widen early (.refl after), same, scope⟩

/-- What an act surely takes is surveyed in its scope. -/
theorem Act.run_takes {act : Act} (plain : act.isPlain = true) {i : Nat}
    (takes : act.takes node.children.length i = true) {taken : Node}
    (here : node.children[i]? = some taken) {context : Context} {before after : Survey}
    (top : context.address = address) (done : act.run (readText fuel) node
      (stepOf.partsOf (readText fuel) 0 node.children) context before = .ok after) :
    ∃ run : Run fuel node [i] address before after, run.part = taken ∧
      run.context.scope = context.scope := by
  induction act generalizing before after with
  | load part | store part =>
    obtain rfl := eq_of_beq takes
    exact exists_in_scope (partAt_takes here done top) rfl
  | each | hints => exact exists_in_scope (loadAll_takes below here done top) rfl
  | alike => exact exists_in_scope (alike_takes below here done top) rfl
  | subscript =>
    unfold run at done
    rw [onSubscript_eq] at done
    exact exists_in_scope (loadAll_takes below here done top) rfl
  | arguments =>
    exact onArguments_takes below (of_decide_eq_true takes).1 here top done
  | andThen first second ihFirst ihSecond =>
    rw [isPlain, Bool.and_eq_true] at plain
    obtain ⟨between, ran, ended⟩ := bind_eq_ok.1 done
    rw [Act.takes, Bool.or_eq_true] at takes
    obtain takes | takes := takes
    next =>
      obtain ⟨run, same, scope⟩ := ihFirst plain.1 takes ran
      exact ⟨run.widen (.refl before) ((Act.run_visits below plain.2).grows ended top), same, scope⟩
    next =>
      obtain ⟨run, same, scope⟩ := ihSecond plain.2 takes ended
      exact ⟨run.widen ((Act.run_visits below plain.1).grows ran top) (.refl after), same, scope⟩
  | call => exact absurd plain (by decide)
  | _ => exact absurd takes (by simp [Act.takes])

theorem onCall_takes {i : Nat} (takes : i = 0 ∨ i = 2) {taken : Node} (here : node.children[i]? = some taken)
    {context : Context} {before after : Survey} (top : context.address = address)
    (done : onCall node (partAt (stepOf.partsOf (readText fuel) 0 node.children) 0)
      (partAt (stepOf.partsOf (readText fuel) 0 node.children) 2) context before = .ok after) :
    ∃ run : Run fuel node [i] address before after, run.part = taken ∧
      run.context.scope = context.scope := by
  rw [onCall_eq] at done
  obtain ⟨middle, ran, ended⟩ := bind_eq_ok.1 done
  have records := grows_recordAt context before
  obtain rfl | rfl := takes
  next =>
    obtain ⟨run, same, scope⟩ := exists_in_scope (partAt_takes here ran top) rfl
    exact ⟨run.widen records ((partAt_visits below 2).grows ended top), same, scope⟩
  next =>
    obtain ⟨run, same, scope⟩ := exists_in_scope (partAt_takes here ended top) rfl
    exact ⟨run.widen (records.trans ((partAt_visits below 0).grows ran top)) (.refl after), same, scope⟩

omit below

theorem stepOf_takes {i : Nat} (takes : node.takes i = true) {taken : Node}
    (here : node.children[i]? = some taken) {context : Context}
    (stands : ∀ found, context.address = some found → root.part? found = some node) {before after : Survey}
    (done : stepOf (readText fuel) node context before = .ok after) :
    ∃ run : Run fuel node [i] context.address before after, run.part = taken ∧
      run.context.scope = context.scope := by
  cases node with
  | leaf l => exact absurd takes (by simp [Node.takes])
  | name parens id => exact absurd takes (by simp [Node.takes])
  | branch kind parens parts =>
    have below (i : Nat) (part : Node) (here : (Node.branch kind parens parts).children[i]? = some part) :=
      stands_child stands here
    have takes : (rule kind parts.length).takes parts.length i = true := takes
    unfold stepOf at done
    obtain called | importing | plain := rule_cases kind parts.length
    next =>
      rw [called] at takes done
      exact onCall_takes below (by simpa [Act.takes] using takes) here rfl done
    next => exact absurd takes (by simp [importing, Act.takes])
    next => exact Act.run_takes below plain takes here rfl done

/-- What a node reaches is surveyed in its scope. -/
theorem exists_run_of_reaches {path : Address} (reaches : node.reaches path = true) {context : Context}
    {above : Address} (top : context.address = some above) (stands : root.part? above = some node)
    {before after : Survey} (done : stepOf (readText fuel) node context before = .ok after) :
    ∃ run : Run fuel node path context.address before after, run.context.scope = context.scope := by
  induction path generalizing node context above before after with
  | nil => exact ⟨.whole done, rfl⟩
  | cons i rest ih =>
    unfold Node.reaches at reaches
    rw [Bool.and_eq_true, Option.any_eq_true] at reaches
    obtain ⟨takes, part, here, reaches⟩ := reaches
    obtain ⟨outer, rfl, scope⟩ := stepOf_takes takes here
      (fun found place => Option.some.inj (top.symm.trans place) ▸ stands) done
    obtain ⟨inner, stays⟩ := ih reaches (by rw [outer.stands, top]; rfl)
      (by rw [Node.part?_concat, stands, Option.bind_some, here]) outer.done
    exact ⟨outer.inside inner, stays.trans scope⟩

end

end Scope

end Graft
