import Graft.Proofs.Scope.Binders

set_option autoImplicit false

/-!
Calls in functions, and what binds names there before them. All that is surveyed in the scope of the
function, and the bindings have earlier stamps than the call.
-/
namespace Graft

/-- The parameters of a function or a lambda, and its body with its number. -/
def Node.functionParts? : Node → Option (Node × Node × Nat)
  | .branch .function _ [_, _, _, _, _, parameters, _, _, _, body] => some (parameters, body, 9)
  | .branch .lambda _ [_, parameters, _, body] => some (parameters, body, 3)
  | _ => none

/-- Whether the parts of a node are surveyed one after the other. -/
def Node.isSequence : Node → Bool
  | .branch kind _ parts => Scope.rule kind parts.length == .each
  | _ => false

/-- Whether a construct is over before what stands elsewhere: it is in an earlier part of a sequence, or
it is a loop, and its target is assigned to before what is in the rest of it. -/
inductive Node.Completes (body : Node) : Address → Address → Prop
  | earlier {above : Address} {node : Node} (stands : body.part? above = some node)
      (sequence : node.isSequence = true) {i j : Nat} (order : i < j) (rest more : Address) :
      Completes body (above ++ i :: rest) (above ++ j :: more)
  | loop {path : Address} {parens : Parens} {parts : List Node}
      (stands : body.part? path = some (.branch .forLoop parens parts)) (count : parts.length = 8) {j : Nat}
      (order : 2 < j) (more : Address) : Completes body path (path ++ j :: more)

/-- The function or lambda in whose own scope a call is evaluated. -/
structure Enclosing (root : Node) (call : Address) where
  above : Address
  function : Node
  stands : root.part? above = some function
  parameters : Node
  body : Node
  index : Nat
  parts : function.functionParts? = some (parameters, body, index)
  path : Address
  place : call = above ++ index :: path
  direct : body.isDirect path = true

/-- The function binds a name, by the import that the clause is of, if there is one. What is asked to be early
is over before the call begins. -/
inductive Enclosing.Binds {root : Node} {call : Address} (scope : Enclosing root call) (early : Prop)
    (name : String) : Option Clause → Prop
  | parameter (mem : name ∈ scope.parameters.binders) : Binds scope early name scope.parameters.clause?
  | construct {path : Address} {construct : Node} (stands : scope.body.part? path = some construct)
      (reached : scope.body.reaches path = true) (mem : name ∈ construct.binders)
      (completes : early → scope.body.Completes path scope.path) : Binds scope early name construct.clause?

namespace Scope

section

variable {root node : Node} {fuel : Nat} {above : Address} {before after : Survey}
  (stands : root.part? above = some node)

include stands

/-- The part in which a call is seen is the one that its address says. -/
theorem Run.Sees.index_eq {i : Nat} {run : Run fuel node [i] (some above) before after} {site : Site}
    (sees : run.Sees site) {j : Nat} {more : Address} (call : site.call = above ++ j :: more) : i = j := by
  obtain ⟨path, place, -⟩ := exists_run run.stands (run.part?_root stands) run.done sees.1 sees.2
  rw [call, List.append_assoc, List.append_cancel_left_eq] at place
  injection place with same
  exact same.symm

theorem Step.Visits.not_mem {Allows : Nat → Nat → Nat → Prop} {step : Step}
    (visits : step.Visits fuel node (some above) Allows) {context : Context}
    (done : step context before = .ok after) (top : context.address = some above) {site : Site} (new : site ∉ before.sites) {j : Nat}
    {more : Address} (call : site.call = above ++ j :: more)
    (others : ∀ i scope outer, Allows i scope outer → i ≠ j) : site ∉ after.sites := by
  intro seen
  obtain ⟨i, run, sees, allowed⟩ := (visits context before after top done).2 site new seen
  exact others _ _ _ allowed (sees.index_eq stands call)

end

/-- A name is bound in the scope of a call, before the call. -/
def Survey.BoundBefore (survey : Survey) (site : Site) (name : String) (clause : Option Clause) : Prop :=
  ∃ binding ∈ (survey.frame site.scope).bindings, binding.name = name ∧ binding.clause = clause ∧
    binding.stamp < site.stamp

theorem Survey.BoundBefore.mono {first second : Survey} {site : Site} {name : String} {clause : Option Clause}
    (bound : first.BoundBefore site name clause) (grows : first.Grows second) :
    second.BoundBefore site name clause := by
  obtain ⟨binding, mem, rest⟩ := bound
  exact ⟨binding, grows.bindings _ binding mem, rest⟩

theorem Survey.Has.boundBefore {first second : Survey} {site : Site} {name : String} {clause : Option Clause}
    (has : first.Has true site.scope name clause) (grows : first.Grows second) (new : site ∉ first.sites)
    (seen : site ∈ second.sites) : second.BoundBefore site name clause := by
  obtain ⟨binding, mem, named, said, -, early⟩ := has
  have now := (grows.sites site seen).resolve_left new
  exact ⟨binding, grows.bindings _ binding mem, named, said, Nat.lt_of_lt_of_le (early rfl) now⟩

section

variable {root node : Node} {fuel : Nat} {above : Address} {before after : Survey} {context : Context}
  {site : Site} {j : Nat} {more : Address} {name : String}

/-- A construct that a node reaches has been surveyed, and its names are bound. -/
theorem exists_run_binds {path : Address} (reaches : node.reaches path = true) {construct : Node}
    (found : node.part? path = some construct) (mem : name ∈ construct.binders)
    (top : context.address = some above) (stands : root.part? above = some node)
    (done : stepOf (readText fuel) node context before = .ok after)
    (inside : context.scope < before.frames.length)
    (undeclared : (after.frame context.scope).redirects.lookup name = none) :
    after.Has true context.scope name construct.clause? := by
  obtain ⟨run, scope⟩ := exists_run_of_reaches reaches top stands done
  obtain rfl := Option.some.inj (run.here.symm.trans found)
  have has := stepOf_binds mem (run.stands.trans (by rw [top]; rfl))
    (run.part?_root stands) run.done
    (by rw [scope]; exact Nat.lt_of_lt_of_le inside run.early.length)
    (by rw [scope]; exact run.late.undeclared _ _ undeclared)
  rw [scope] at has
  exact has.mono run.late

theorem exists_reaches {node : Node} {first rest : Address} (reaches : node.reaches (first ++ rest) = true) :
    ∃ part, node.part? first = some part ∧ part.reaches rest = true := by
  induction first generalizing node with
  | nil => exact ⟨node, rfl, reaches⟩
  | cons i first ih =>
    rw [List.cons_append, Node.reaches, Bool.and_eq_true, Option.any_eq_true] at reaches
    obtain ⟨-, child, here, reaches⟩ := reaches
    obtain ⟨part, found, reaches⟩ := ih reaches
    exact ⟨part, by rw [Node.part?_cons, here, Option.bind_some, found], reaches⟩

variable (top : context.address = some above) (stands : root.part? above = some node)
  (new : site ∉ before.sites) (seen : site ∈ after.sites) (call : site.call = above ++ j :: more)
  (scope : site.scope = context.scope) (inside : context.scope < before.frames.length)
  (undeclared : (after.frame context.scope).redirects.lookup name = none)
  (done : stepOf (readText fuel) node context before = .ok after)

include top stands new seen call scope inside undeclared done

theorem sequence_binds (sequence : node.isSequence = true) {i : Nat} (order : i < j) {rest : Address}
    (reaches : node.reaches (i :: rest) = true) {construct : Node}
    (found : node.part? (i :: rest) = some construct) (mem : name ∈ construct.binders) :
    after.BoundBefore site name construct.clause? := by
  cases node with
  | leaf l => exact absurd sequence (by simp [Node.isSequence])
  | name parens id => exact absurd sequence (by simp [Node.isSequence])
  | branch kind parens parts =>
    have below (k : Nat) (part : Node) (here : (Node.branch kind parens parts).children[k]? = some part) :=
      stands_child (fun found (place : context.address = some found) =>
        Option.some.inj (top.symm.trans place) ▸ stands) here
    rw [Node.reaches, Bool.and_eq_true, Option.any_eq_true] at reaches
    obtain ⟨-, part, here, reaches⟩ := reaches
    rw [Node.part?_cons, here, Option.bind_some] at found
    have each : rule kind parts.length = .each := eq_of_beq sequence
    unfold stepOf at done
    rw [each] at done
    -- The run is cut behind the part with the construct, so that the call is seen after the cut.
    have split := partsOf_append (readText fuel) 0 (parts.take (i + 1)) (parts.drop (i + 1))
    rw [List.take_append_drop] at split
    have stays := @stays_partsOf root fuel _ _ below
    rw [Node.children_branch, split] at stays
    rw [Act.run, split, loadAll_append] at done
    obtain ⟨middle, early, late⟩ := bind_eq_ok.1 done
    have grows := (loadAll_visits fun part mem => stays part (List.mem_append_right _ mem)).grows late rfl
    have firsts : ∀ step ∈ (stepOf.partsOf (readText fuel) 0 (parts.take (i + 1))).map load,
        step.Visits fuel (.branch kind parens parts) context.address fun k _ _ => k ≤ i := by
      intro step mapped
      obtain ⟨_, among, rfl⟩ := List.mem_map.1 mapped
      obtain ⟨k, part, stood, rfl⟩ := mem_partsOf.1 among
      rw [List.getElem?_take, Option.ite_none_right_eq_some] at stood
      rw [Nat.zero_add]
      have own : (Node.branch kind parens parts).children[k]? = some part := stood.2
      refine (Step.Visits.load (Step.Visits.of_part own (below k part own))).mono ?_
      rintro _ _ _ ⟨rfl, -⟩
      exact Nat.le_of_lt_succ stood.1
    have taken : ⟨part, (stepOf (readText fuel) part).adapted (child · i)⟩ ∈
        stepOf.partsOf (readText fuel) 0 (parts.take (i + 1)) :=
      mem_partsOf.2 ⟨i, part, by rw [List.getElem?_take_of_lt (Nat.lt_succ_self i)]; exact here,
        by rw [Nat.zero_add]⟩
    obtain ⟨first, second, ahead, ran, behind⟩ := all_takes firsts (List.mem_map_of_mem taken) rfl early
    have has := exists_run_binds reaches found mem (show (child (loading context) i).address = some (above ++ [i])
      by simp [child, loading, top]) (below i part here _ (by rw [top]; rfl)) ran
      (Nat.lt_of_lt_of_le inside ahead.length) ((behind.trans grows).undeclared _ _ undeclared)
    refine Survey.Has.boundBefore (scope ▸ has.mono behind) grows ?_ seen
    rw [top] at firsts
    refine Step.Visits.not_mem stands (.all firsts) early top new call fun k _ _ bounded => ?_
    omega

theorem loop_binds {parens : Parens} {parts : List Node} (shape : node = .branch .forLoop parens parts)
    (count : parts.length = 8) (order : 2 < j) (mem : name ∈ node.binders) :
    after.BoundBefore site name node.clause? := by
  subst shape
  have below (k : Nat) (part : Node) (here : (Node.branch .forLoop parens parts).children[k]? = some part) :=
    stands_child (fun found (place : context.address = some found) =>
      Option.some.inj (top.symm.trans place) ▸ stands) here
  have assigned : name ∈ (parts.getD 2 .absent).targetNames := by
    simpa [Node.binders, Node.boundHere, Kind.target?, count, Node.isA] using mem
  unfold stepOf at done
  rw [count] at done
  obtain ⟨first, stored, done⟩ := bind_eq_ok.1 done
  obtain ⟨_, ticked, done⟩ := bind_eq_ok.1 done
  obtain rfl := Except.ok.inj ticked
  have grows := (Act.run_visits below (show (Act.all [.load 4, .load 6, .load 7]).isPlain = true from rfl)).grows
    done rfl
  have ticks := first.grows_tick context.scope
  have has := store_gives below assigned top top stored inside
    ((ticks.trans grows).undeclared _ _ undeclared)
  -- The target is stored before the body is surveyed, and no call of the body is seen in it.
  refine Survey.Has.boundBefore (scope ▸ has.tick) grows ?_ seen
  have visits := Step.Visits.store (@partAt_visits root fuel _ _ below 2)
  rw [top] at visits
  refine Step.Visits.not_mem stands visits stored top new call ?_
  rintro i _ _ ⟨rfl, -⟩
  omega

end

section

variable {root node : Node} {fuel : Nat} {above : Address} {before after : Survey} {context : Context}
  {site : Site} {index : Nat} {more : Address}

/-- The parameters and the body of a function are surveyed in one scope, and the call is seen in the body. -/
def Enters (fuel : Nat) (node : Node) (x y : Nat) (address : Option Address) (site : Site)
    (before after : Survey) : Prop :=
  ∃ (parameters : Run fuel node [x] address before after) (body : Run fuel node [y] address before after),
    body.Sees site ∧ parameters.second.Grows body.first ∧
      parameters.context.scope = body.context.scope ∧ body.context.scope < parameters.first.frames.length

theorem Enters.widen {x y : Nat} {address : Option Address} {first second : Survey}
    (enters : Enters fuel node x y address site first second) (early : before.Grows first)
    (late : second.Grows after) : Enters fuel node x y address site before after := by
  obtain ⟨parameters, body, rest⟩ := enters
  exact ⟨parameters.widen early late, body.widen early late, rest⟩

variable (top : context.address = some above) (stands : root.part? above = some node)
  (new : site ∉ before.sites)

include top stands new

/-- An act that does not take the part in which a call stands does not see it. -/
theorem not_mem_elsewhere {act : Act} (plain : act.isPlain = true) {y : Nat}
    (call : site.call = above ++ y :: more) (others : act.mentions y = false)
    (done : act.run (readText fuel) node (stepOf.partsOf (readText fuel) 0 node.children) context before =
      .ok after) : before.Grows after ∧ site ∉ after.sites := by
  have below (k : Nat) (part : Node) (here : node.children[k]? = some part) :=
    stands_child (fun found (place : some above = some found) => Option.some.inj place ▸ stands) here
  have visits := @Act.run_visits root fuel _ _ below act plain
  refine ⟨visits.grows done top, Step.Visits.not_mem stands visits done top new call ?_⟩
  rintro i _ _ ⟨taken, -⟩ rfl
  exact absurd taken (by simp [others])

variable (seen : site ∈ after.sites)

include seen

theorem within_function {x y : Nat} (apart : x ≠ y) {parameters : Node}
    (here : node.children[x]? = some parameters) (call : site.call = above ++ y :: more)
    (done : (Act.within .function (.all [.load x, .load y])).run (readText fuel) node
      (stepOf.partsOf (readText fuel) 0 node.children) context before = .ok after) :
    Enters fuel node x y (some above) site before after := by
  have below (k : Nat) (part : Node) (here : node.children[k]? = some part) :=
    stands_child (fun found (place : some above = some found) => Option.some.inj place ▸ stands) here
  let scope := before.frames.length
  let opened := (before.openScope .function context.scope).2
  have opens : before.Grows opened := before.grows_openScope .function context.scope
  have chain : (Act.all [.load x, .load y]).run (readText fuel) node
      (stepOf.partsOf (readText fuel) 0 node.children) (inScope context scope) opened = .ok after := done
  obtain ⟨middle, ran, chain⟩ := bind_eq_ok.1 chain
  obtain ⟨last, ended, chain⟩ := bind_eq_ok.1 chain
  obtain rfl := Except.ok.inj chain
  have visits (part : Nat) := Step.Visits.load (@partAt_visits root fuel _ _ below part)
  have unseen : site ∉ middle.sites := by
    refine Step.Visits.not_mem stands (visits x) ran top new call ?_
    rintro i _ _ ⟨rfl, -⟩
    exact apart
  obtain ⟨first, rfl, inner⟩ := partAt_takes here ran top
  obtain ⟨-, each⟩ := visits y (inScope context scope) middle last top ended
  obtain ⟨i, second, sees, same, shared⟩ := each site unseen seen
  subst same
  refine ⟨first.widen opens ((visits i).grows ended top), second.widen (opens.trans ((visits x).grows ran top)) (.refl last), sees,
    first.late.trans second.early, (congrArg Context.scope inner :).trans shared.symm, ?_⟩
  refine Nat.lt_of_lt_of_le ?_ first.early.length
  change second.context.scope < opened.frames.length
  rw [shared]
  simp [opened, Survey.openScope, scope, inScope]

theorem definition_enters {parameters : Node} (here : node.children[5]? = some parameters)
    (call : site.call = above ++ 9 :: more)
    (done : (Act.all [.within .function (.all [.load 5, .load 9]), .load 0, .load 7]).run (readText fuel) node
      (stepOf.partsOf (readText fuel) 0 node.children) context before = .ok after) :
    Enters fuel node 5 9 (some above) site before after := by
  obtain ⟨inner, entered, rest⟩ := bind_eq_ok.1 done
  have plain : (Act.all [.load 0, .load 7]).isPlain = true := rfl
  by_cases already : site ∈ inner.sites
  next =>
    have below (k : Nat) (part : Node) (here : node.children[k]? = some part) :=
      stands_child (fun found (place : some above = some found) => Option.some.inj place ▸ stands) here
    exact (within_function top stands new already (by decide) here call entered).widen (.refl before)
      ((Act.run_visits below plain).grows rest top)
  next => exact absurd seen (not_mem_elsewhere top stands already plain call rfl rest).2

/-- A call in the body of a function is seen in the scope of the function, after its parameters. -/
theorem function_enters {parameters body : Node} {y : Nat}
    (parts : node.functionParts? = some (parameters, body, y)) (call : site.call = above ++ y :: more)
    (done : stepOf (readText fuel) node context before = .ok after) :
    ∃ x, node.children[x]? = some parameters ∧ node.children[y]? = some body ∧
      Enters fuel node x y (some above) site before after := by
  unfold Node.functionParts? at parts
  split at parts
  next =>
    obtain ⟨rfl, rfl, rfl⟩ : _ ∧ _ ∧ _ := by simpa using parts
    refine ⟨5, rfl, rfl, ?_⟩
    obtain ⟨first, defined, done⟩ := bind_eq_ok.1 done
    obtain ⟨second, entered, done⟩ := bind_eq_ok.1 done
    obtain ⟨early, unseen⟩ := not_mem_elsewhere top stands new (show (Act.bind 2).isPlain = true from rfl) call rfl
      defined
    obtain rfl := Except.ok.inj done
    have late := second.grows_tick context.scope
    have seen : site ∈ second.sites := seen
    unfold Act.run Scope.withTypes at entered
    rw [node_partAt] at entered
    split at entered
    next => exact (definition_enters top stands unseen seen rfl call entered).widen early late
    next =>
      -- The type parameters have a scope around that of the function.
      let opened := (first.openScope .generic context.scope).2
      have opens : first.Grows opened := first.grows_openScope .generic context.scope
      obtain ⟨third, loaded, entered⟩ := bind_eq_ok.1 entered
      have inner : (inScope context first.frames.length).address = some above := top
      obtain ⟨types, unseen⟩ := not_mem_elsewhere inner stands (show site ∉ opened.sites from unseen)
        (show (Act.load 3).isPlain = true from rfl) call rfl loaded
      exact (definition_enters inner stands unseen seen rfl call entered).widen
        (early.trans (opens.trans types)) late
  next =>
    obtain ⟨rfl, rfl, rfl⟩ : _ ∧ _ ∧ _ := by simpa using parts
    exact ⟨1, rfl, rfl, within_function top stands new seen (by decide) rfl call done⟩
  next => exact absurd parts (by simp)

end

theorem isDirect_of_append {node : Node} {first rest : Address} (direct : node.isDirect (first ++ rest) = true) :
    node.isDirect first = true := by
  induction first generalizing node with
  | nil => rfl
  | cons i first ih =>
    rw [List.cons_append, Node.isDirect, Bool.and_eq_true, Option.any_eq_true] at direct
    obtain ⟨own, child, here, direct⟩ := direct
    rw [Node.isDirect, Bool.and_eq_true, Option.any_eq_true]
    exact ⟨own, child, here, ih direct⟩

section

variable {root body : Node} {fuel : Nat} {above : Address} {before after : Survey} {context : Context}
  {site : Site}

theorem scope_of_isDirect {later : Address} (direct : body.isDirect later = true)
    (top : context.address = some above) (stands : root.part? above = some body)
    (new : site ∉ before.sites) (seen : site ∈ after.sites) (call : site.call = above ++ later)
    (done : stepOf (readText fuel) body context before = .ok after) : site.scope = context.scope := by
  obtain ⟨path, place, runs⟩ := exists_run top stands done new seen
  obtain rfl := List.append_cancel_left (call.symm.trans place)
  obtain ⟨run, -, stays, ends⟩ := runs later [] (by simp)
  exact (ends rfl).trans (stays direct)

/-- What is bound in a body before a call that is evaluated where the body is. -/
theorem boundBefore_of_completes {path later : Address} (completes : body.Completes path later)
    (direct : body.isDirect later = true) {construct : Node} (found : body.part? path = some construct)
    (reaches : body.reaches path = true) {name : String} (mem : name ∈ construct.binders)
    (top : context.address = some above) (stands : root.part? above = some body)
    (new : site ∉ before.sites) (seen : site ∈ after.sites) (call : site.call = above ++ later)
    (inside : context.scope < before.frames.length)
    (undeclared : (after.frame context.scope).redirects.lookup name = none)
    (done : stepOf (readText fuel) body context before = .ok after) :
    after.BoundBefore site name construct.clause? := by
  have scope := scope_of_isDirect direct top stands new seen call done
  obtain ⟨whole, place, runs⟩ := exists_run top stands done new seen
  obtain rfl := List.append_cancel_left (call.symm.trans place)
  -- Either the construct is a part of an earlier member of a sequence, or the target of a loop around the call.
  cases completes with
  | @earlier within node at_ sequence i j order rest more =>
    obtain ⟨run, sees, stays, -⟩ := runs within (j :: more) rfl
    have same := stays (isDirect_of_append direct)
    obtain ⟨part, there, reaches⟩ := exists_reaches reaches
    obtain rfl := Option.some.inj (run.here.symm.trans at_)
    obtain rfl := Option.some.inj (run.here.symm.trans there)
    rw [Node.part?_append, run.here, Option.bind_some] at found
    refine Survey.BoundBefore.mono ?_ run.late
    refine sequence_binds (run.stands.trans (by rw [top]; rfl))
      (run.part?_root stands) sees.1 sees.2
      (by rw [call, List.append_assoc]) (scope.trans same.symm) ?_ ?_ run.done sequence order reaches found mem
    next => rw [same]; exact Nat.lt_of_lt_of_le inside run.early.length
    next => rw [same]; exact run.late.undeclared _ _ undeclared
  | @loop _ parens parts at_ count j order more =>
    obtain ⟨run, sees, stays, -⟩ := runs path (j :: more) rfl
    have same := stays (isDirect_of_append direct)
    obtain rfl := Option.some.inj (run.here.symm.trans found)
    have shape := Option.some.inj (run.here.symm.trans at_)
    refine Survey.BoundBefore.mono ?_ run.late
    refine loop_binds (run.stands.trans (by rw [top]; rfl))
      (run.part?_root stands) sees.1 sees.2
      (by rw [call, List.append_assoc]) (scope.trans same.symm) ?_ ?_ run.done shape count order mem
    next => rw [same]; exact Nat.lt_of_lt_of_le inside run.early.length
    next => rw [same]; exact run.late.undeclared _ _ undeclared

end

/-- What a function binds is bound in the scope of a call in it, with an earlier stamp if it is over before. -/
theorem exists_binding_of_binds {module : Module} {survey : Survey} (surveyed : Scope.survey module = .ok survey)
    {site : Site} (mem : site ∈ survey.sites) (scope : Enclosing module.root site.call) {early : Prop}
    {name : String} {clause : Option Clause} (binds : scope.Binds early name clause)
    (undeclared : (survey.frame site.scope).redirects.lookup name = none) :
    ∃ binding ∈ (survey.frame site.scope).bindings, binding.name = name ∧ binding.clause = clause ∧
      (early → binding.stamp < site.stamp) := by
  unfold Scope.survey at surveyed
  generalize (renderLeaves module.layout module.leaves).length = fuel at surveyed
  obtain ⟨_, rfl, runs⟩ := exists_run rfl (Node.part?_nil module.root) surveyed
    (show site ∉ Survey.initial.sites by simp [Survey.initial]) mem
  obtain ⟨outer, sees, -⟩ := runs scope.above (scope.index :: scope.path) scope.place
  have function := Option.some.inj (outer.here.symm.trans scope.stands)
  obtain ⟨x, parameters, body, first, second, inner, order, shared, inside⟩ := function_enters outer.stands
    outer.here sees.1 sees.2 (function ▸ scope.parts) scope.place outer.done
  have body : second.part = scope.body := Option.some.inj (second.getElem?_index.symm.trans body)
  have parameters : first.part = scope.parameters :=
    Option.some.inj (first.getElem?_index.symm.trans parameters)
  have stands := second.part?_root outer.here
  have call : site.call = scope.above ++ [scope.index] ++ scope.path := scope.place.trans (by simp)
  -- The call is in the body, which is surveyed after the parameters and in the same scope.
  have same := scope_of_isDirect (body ▸ scope.direct) second.stands stands inner.1 inner.2 call second.done
  have late := second.late.trans outer.late
  have grows := (second.grows outer.here).trans late
  have within : second.context.scope < second.first.frames.length :=
    Nat.lt_of_lt_of_le inside ((first.grows outer.here).trans order).length
  rw [same] at undeclared
  have free := late.undeclared _ _ undeclared
  cases binds with
  | parameter named =>
    have has := stepOf_binds (parameters ▸ named) first.stands (first.part?_root outer.here) first.done
      (shared ▸ inside) (shared ▸ (order.trans grows).undeclared _ _ undeclared)
    rw [shared, ← same, parameters] at has
    obtain ⟨binding, among, bound⟩ := (has.mono order).boundBefore grows inner.1 mem
    exact ⟨binding, among, bound.1, bound.2.1, fun _ => bound.2.2⟩
  | @construct _ construct found reaches named completes =>
    by_cases asked : early
    next =>
      have before := boundBefore_of_completes (body ▸ completes asked) (body ▸ scope.direct) (body ▸ found)
        (body ▸ reaches) named second.stands stands inner.1 inner.2 call within free second.done
      obtain ⟨binding, among, bound⟩ := before.mono late
      exact ⟨binding, among, bound.1, bound.2.1, fun _ => bound.2.2⟩
    next =>
      have has := (exists_run_binds (body ▸ reaches) (body ▸ found) named second.stands stands second.done
        within free).mono late
      obtain ⟨binding, among, named, said, -⟩ := has
      exact ⟨binding, same ▸ among, named, said, fun early => absurd early asked⟩

end Scope

end Graft
