import Graft.Proofs.Scope.Reached

set_option autoImplicit false

/-!
The constructs that bind names, and that a survey has their bindings in the scope they stand in: finished,
once the construct has been surveyed.
-/
namespace Graft

/-- The part that a construct assigns to. -/
def Kind.target? : Kind → Nat → Option Nat
  | .walrus, 3 | .annotated, 4 | .augmented, 3 => some 0
  | .binder, 2 => some 1
  | .forLoop, 8 => some 2
  | .target, _ + 1 => some 0
  | _, _ => none

/-- The part that is the name of a definition. -/
def Kind.definition? : Kind → Nat → Option Nat
  | .function, 10 | .classDef, 9 => some 2
  | .typeAlias, 5 | .parameter, 5 => some 1
  | _, _ => none

namespace Node

/-- The names in a target. -/
def targetNames : Node → List String
  | .leaf _ => []
  | .name _ id => [id.text]
  | .branch kind _ parts =>
    if kind = .tuple ∨ kind = .list ∨ kind = .starred then targetNamesAll parts else []
where
  targetNamesAll : List Node → List String
    | [] => []
    | node :: rest => node.targetNames ++ targetNamesAll rest

/-- The names that a node assigns to, defines or imports. -/
def boundHere : Node → List String
  | .branch kind parens parts =>
    match kind.target? parts.length, kind.definition? parts.length with
    | some target, _ => (parts.getD target .absent).targetNames
    | none, some named => [Scope.nodeText (parts.getD named .absent)]
    | none, none => ((branch kind parens parts).clause?.map Clause.boundNames).getD []
  | _ => []

/-- The names that a construct binds where it stands: an assignment, a walrus, a target of a loop, of a
`with` or of an `except`, a definition, an import, or the parameters of a function. Captures of patterns
are not among them, nor are the targets of comprehensions, which have a scope of their own. -/
def binders (node : Node) : List String :=
  if node.isA .assign || node.isA .parameters then
    (node.children.filter fun part => part.isA .target || part.isA .parameter).flatMap boundHere
  else if node.isA .target || node.isA .parameter then []
  else node.boundHere

end Node

namespace Scope

namespace Survey

/-- A scope has a binding of a name, and counts on if it is finished. -/
def Has (survey : Survey) (finished : Bool) (scope : Nat) (name : String) (clause : Option Clause) : Prop :=
  ∃ binding ∈ (survey.frame scope).bindings, binding.name = name ∧ binding.clause = clause ∧
    binding.stamp ≤ (survey.frame scope).clock ∧
      (finished = true → binding.stamp < (survey.frame scope).clock)

variable {survey : Survey} {scope : Nat} {name : String} {clause : Option Clause}

theorem Has.of_finished (has : survey.Has true scope name clause) (finished : Bool) :
    survey.Has finished scope name clause := by
  obtain ⟨binding, mem, named, said, stamp, early⟩ := has
  exact ⟨binding, mem, named, said, stamp, fun _ => early rfl⟩

theorem Has.mono {finished : Bool} (has : survey.Has finished scope name clause) {later : Survey}
    (grows : survey.Grows later) : later.Has finished scope name clause := by
  obtain ⟨binding, mem, named, said, stamp, early⟩ := has
  have clock := grows.clock scope
  exact ⟨binding, grows.bindings scope binding mem, named, said, Nat.le_trans stamp clock,
    fun done => Nat.lt_of_lt_of_le (early done) clock⟩

theorem Has.tick {finished : Bool} (has : survey.Has finished scope name clause) :
    (survey.tick scope).Has true scope name clause := by
  obtain ⟨binding, mem, named, said, stamp, -⟩ := has
  have inside : scope < survey.frames.length := by
    refine Nat.lt_of_not_le fun outside => ?_
    rw [Survey.frame, List.getD_eq_getElem?_getD, List.getElem?_eq_none outside] at mem
    exact absurd mem (by simp)
  have frame : (survey.tick scope).frame scope =
      { survey.frame scope with clock := (survey.frame scope).clock + 1 } := by
    rw [Survey.tick, frame_updateFrame, if_pos ⟨rfl, inside⟩]
  refine ⟨binding, by rw [frame]; exact mem, named, said, ?_, fun _ => ?_⟩
  all_goals rw [frame]
  next => exact Nat.le_succ_of_le stamp
  next => exact Nat.lt_succ_of_le stamp

theorem has_bind (inside : scope < survey.frames.length)
    (undeclared : (survey.frame scope).redirects.lookup name = none) (origin : Option Address) :
    (survey.bind scope name clause origin).Has false scope name clause := by
  have target : survey.targetOf name (survey.frames.length + 1) scope = scope := by
    simp [targetOf, undeclared]
  have frame : (survey.bind scope name clause origin).frame scope = { survey.frame scope with
      bindings := (survey.frame scope).bindings ++ [⟨name, (survey.frame scope).clock, clause, origin⟩] } := by
    rw [Survey.bind, target, frame_updateFrame, if_pos ⟨rfl, inside⟩]
  refine ⟨⟨name, (survey.frame scope).clock, clause, origin⟩, ?_, rfl, rfl, ?_, fun never => absurd never (by simp)⟩
  next => simp [frame]
  next => exact Nat.le_of_eq (congrArg Frame.clock frame).symm

end Survey

theorem mem_targetNamesAll {name : String} {parts : List Node} :
    name ∈ Node.targetNames.targetNamesAll parts ↔ ∃ part ∈ parts, name ∈ part.targetNames := by
  induction parts with
  | nil => simp [Node.targetNames.targetNamesAll]
  | cons part rest ih => simp [Node.targetNames.targetNamesAll, ih]

section

variable {root : Node} {fuel : Nat}

theorem stepOf_stores {node : Node} {name : String} (mem : name ∈ node.targetNames) {context : Context}
    (stores : context.storing = true) {above : Address} (top : context.address = some above)
    (stands : root.part? above = some node) {before after : Survey}
    (done : stepOf (readText fuel) node context before = .ok after)
    (inside : context.scope < before.frames.length)
    (undeclared : (after.frame context.scope).redirects.lookup name = none) :
    after.Has false context.scope name none := by
  induction node generalizing context above before after with
  | leaf l => exact absurd mem (by simp [Node.targetNames])
  | name parens id =>
    obtain rfl := List.mem_singleton.1 mem
    simp only [stepOf, stores, top, Option.isSome_some, Bool.and_self, if_true] at done
    have free := (before.grows_bind context.scope id.text none context.address).undeclared
    obtain rfl := Except.ok.inj done
    exact Survey.has_bind inside (free _ _ undeclared) context.address
  | branch kind parens parts ih =>
    have below (i : Nat) (part : Node) (here : (Node.branch kind parens parts).children[i]? = some part) :=
      stands_child (fun found (place : some above = some found) => Option.some.inj place ▸ stands) here
    unfold Node.targetNames at mem
    split at mem
    next nested =>
      obtain ⟨part, among, mem⟩ := mem_targetNamesAll.1 mem
      obtain ⟨i, here⟩ := List.getElem?_of_mem among
      -- Targets side by side, and starred ones, pass on that they are stored.
      have alike : rule kind parts.length = .alike := by
        obtain rfl | rfl | rfl := nested <;> rfl
      unfold stepOf at done
      rw [alike] at done
      obtain ⟨run, rfl, inner⟩ := alike_takes below here done top
      have scope : run.context.scope = context.scope := (congrArg Context.scope inner :)
      have has := ih run.part among mem ((congrArg Context.storing inner :).trans stores)
        (by rw [run.stands]; rfl) (by rw [Node.part?_concat, stands, Option.bind_some, Node.children_branch, here])
        run.done (by rw [scope]; exact Nat.lt_of_lt_of_le inside run.early.length)
        (by rw [scope]; exact run.late.undeclared _ _ undeclared)
      rw [scope] at has
      exact has.mono run.late
    next => exact absurd mem (by simp)

/-- Whether an act finishes a construct of its scope. -/
def Act.ticks : Act → Bool
  | .tick => true
  | .andThen first second => first.ticks || second.ticks
  | _ => false

theorem rule_of_target? {kind : Kind} {count part : Nat} (target : kind.target? count = some part) :
    kind = .target ∧ rule kind count = .store part ∨
      ∃ rest, rule kind count = .andThen (.store part) rest ∧ rest.ticks = true ∧ rest.isPlain = true := by
  unfold Kind.target? at target
  split at target <;> first
    | (obtain rfl := Option.some.inj target; exact .inl ⟨rfl, rfl⟩)
    | (obtain rfl := Option.some.inj target; exact .inr ⟨_, rfl, rfl, rfl⟩)
    | exact absurd target (by simp)

theorem rule_of_definition? {kind : Kind} {count part : Nat} (definition : kind.definition? count = some part) :
    ∃ rest, rule kind count = .andThen (.bind part) rest ∧ rest.isPlain = true ∧
      (kind ≠ .parameter → rest.ticks = true) := by
  unfold Kind.definition? at definition
  split at definition <;> first
    | (obtain rfl := Option.some.inj definition; exact ⟨_, rfl, rfl, by simp [Act.ticks, Act.all]⟩)
    | exact absurd definition (by simp)

section

variable {node : Node} {address : Option Address} (below : ∀ (i : Nat) part, node.children[i]? = some part →
  ∀ found, address.map (· ++ [i]) = some found → root.part? found = some part)

include below

theorem Act.run_ticks {act : Act} (ticks : act.ticks = true) (plain : act.isPlain = true) {context : Context}
    {before after : Survey} (top : context.address = address) (done : act.run (readText fuel) node
      (stepOf.partsOf (readText fuel) 0 node.children) context before = .ok after) {finished : Bool}
    {name : String} {clause : Option Clause} (has : before.Has finished context.scope name clause) :
    after.Has true context.scope name clause := by
  induction act generalizing before after with
  | tick =>
    obtain rfl := Except.ok.inj done
    exact has.tick
  | andThen first second ihFirst ihSecond =>
    rw [isPlain, Bool.and_eq_true] at plain
    obtain ⟨between, ran, ended⟩ := bind_eq_ok.1 done
    rw [Act.ticks, Bool.or_eq_true] at ticks
    obtain ticks | ticks := ticks
    next => exact (ihFirst ticks plain.1 ran has).mono ((Act.run_visits below plain.2).grows ended top)
    next =>
      exact ihSecond ticks plain.2 ended (has.mono ((Act.run_visits below plain.1).grows ran top))
  | _ => exact absurd ticks (by simp [Act.ticks])

theorem store_gives {part : Nat} {name : String} (mem : name ∈ (node.children.getD part .absent).targetNames)
    {context : Context} {above : Address} (top : context.address = some above) (same : address = some above)
    {before after : Survey} (done : store (partAt (stepOf.partsOf (readText fuel) 0 node.children) part)
      context before = .ok after) (inside : context.scope < before.frames.length)
    (undeclared : (after.frame context.scope).redirects.lookup name = none) :
    after.Has false context.scope name none := by
  rw [List.getD_eq_getElem?_getD] at mem
  cases here : node.children[part]? with
  | none => rw [here] at mem; exact absurd mem (by simp [Node.absent, Node.plain, Node.targetNames])
  | some target =>
    rw [here] at mem
    subst same
    obtain ⟨run, rfl, inner⟩ := partAt_takes here done top
    have scope : run.context.scope = context.scope := (congrArg Context.scope inner :)
    have place : run.context.address = some (above ++ [part]) := run.stands
    have has := stepOf_stores mem (congrArg Context.storing inner :) place
      (below part run.part here _ rfl) run.done
      (by rw [scope]; exact Nat.lt_of_lt_of_le inside run.early.length)
      (by rw [scope]; exact run.late.undeclared _ _ undeclared)
    rw [scope] at has
    exact has.mono run.late

omit below in
theorem bindNode_gives {part : Part} {context : Context} {before after : Survey}
    (done : bindNode part.node context before = .ok after) (inside : context.scope < before.frames.length)
    (undeclared : (after.frame context.scope).redirects.lookup (nodeText part.node) = none) :
    after.Has false context.scope (nodeText part.node) none := by
  obtain rfl := Except.ok.inj done
  have grows := before.grows_bind context.scope (nodeText part.node) none context.address
  exact Survey.has_bind inside (grows.undeclared _ _ undeclared) _

omit below in
theorem onImport_gives {clause : Clause} (said : node.clause? = some clause) {name : String}
    (mem : name ∈ clause.boundNames) {context : Context} {before after : Survey}
    (done : onImport node context before = .ok after) (inside : context.scope < before.frames.length)
    (undeclared : (after.frame context.scope).redirects.lookup name = none) :
    after.Has true context.scope name (some clause) := by
  rw [onImport_of_clause said, Step.all_append] at done
  obtain ⟨between, ran, ended⟩ := bind_eq_ok.1 done
  obtain rfl := Except.ok.inj ended
  have binds : ∀ step ∈ clause.boundNames.map fun name => Step.bind name (some clause),
      step.Visits 0 node context.address fun _ _ _ => False := by
    intro step mapped
    obtain ⟨other, -, rfl⟩ := List.mem_map.1 mapped
    exact .bind other _
  obtain ⟨first, second, early, bound, late⟩ := all_takes binds (List.mem_map_of_mem mem) rfl ran
  have free := late.undeclared _ _ ((between.grows_tick _).undeclared _ _ undeclared)
  obtain rfl := Except.ok.inj bound
  have grows := first.grows_bind context.scope name (some clause) context.address
  have has : (first.bind context.scope name (some clause) context.address).Has false context.scope name
      (some clause) :=
    Survey.has_bind (Nat.lt_of_lt_of_le inside early.length) (grows.undeclared _ _ free) context.address
  exact (has.mono late).tick

end

/-- What a node assigns to, defines or imports is bound where it stands. -/
theorem stepOf_gives {node : Node} {name : String} (mem : name ∈ node.boundHere) {context : Context}
    {above : Address} (top : context.address = some above) (stands : root.part? above = some node)
    {before after : Survey} (done : stepOf (readText fuel) node context before = .ok after)
    (inside : context.scope < before.frames.length)
    (undeclared : (after.frame context.scope).redirects.lookup name = none) :
    after.Has (!node.isA .target && !node.isA .parameter) context.scope name node.clause? := by
  cases node with
  | leaf l => exact absurd mem (by simp [Node.boundHere])
  | name parens id => exact absurd mem (by simp [Node.boundHere])
  | branch kind parens parts =>
    have below (i : Nat) (part : Node) (here : (Node.branch kind parens parts).children[i]? = some part) :=
      stands_child (fun found (place : context.address = some found) =>
        Option.some.inj (top.symm.trans place) ▸ stands) here
    unfold stepOf at done
    cases target : kind.target? parts.length with
    | some part =>
      have assigned : name ∈ (parts.getD part .absent).targetNames := by
        simpa [Node.boundHere, target] using mem
      have said : (Node.branch kind parens parts).clause? = none := by
        refine clause?_of_kind ?_ ?_ parens parts
        all_goals rintro rfl; exact absurd target (by simp [Kind.target?])
      rw [said]
      -- A target is bound where its step is just that; all other steps go on and tick after they bind.
      obtain ⟨rfl, alone⟩ | ⟨rest, chain, ticks, plain⟩ := rule_of_target? target
      next =>
        rw [alone] at done
        exact store_gives below assigned top top done inside undeclared
      next =>
        rw [chain] at done
        obtain ⟨between, ran, ended⟩ := bind_eq_ok.1 done
        have late := (Act.run_visits below plain).grows ended rfl
        have has := store_gives below assigned top top ran inside (late.undeclared _ _ undeclared)
        exact (Act.run_ticks below ticks plain rfl ended has).of_finished _
    | none =>
      cases definition : kind.definition? parts.length with
      | some part =>
        have defined : name = nodeText (parts.getD part .absent) := by
          simpa [Node.boundHere, target, definition] using mem
        have said : (Node.branch kind parens parts).clause? = none := by
          refine clause?_of_kind ?_ ?_ parens parts
          all_goals rintro rfl; exact absurd definition (by simp [Kind.definition?])
        rw [said]
        obtain ⟨rest, chain, plain, ticks⟩ := rule_of_definition? definition
        rw [chain] at done
        obtain ⟨between, ran, ended⟩ := bind_eq_ok.1 done
        have late := (Act.run_visits below plain).grows ended rfl
        rw [defined, ← node_partAt (readText fuel) parts part] at undeclared ⊢
        have has := bindNode_gives ran inside (late.undeclared _ _ undeclared)
        -- A parameter is bound without a tick, so that it is not finished yet.
        by_cases parameter : kind = .parameter
        next =>
          subst parameter
          exact has.mono late
        next => exact (Act.run_ticks below (ticks parameter) plain rfl ended has).of_finished _
      | none =>
        cases said : (Node.branch kind parens parts).clause? with
        | none => exact absurd mem (by simp [Node.boundHere, target, definition, said])
        | some clause =>
          have bound : name ∈ clause.boundNames := by
            simpa [Node.boundHere, target, definition, said] using mem
          have imports : rule kind parts.length = .imports := by
            by_cases importing : kind = .importing
            next => rw [importing]; rfl
            by_cases importFrom : kind = .importFrom
            next => rw [importFrom]; rfl
            exact absurd said (by rw [clause?_of_kind importing importFrom]; simp)
          rw [imports] at done
          exact (onImport_gives said bound done inside undeclared).of_finished _

/-- Once a construct has been surveyed, its names are bound where it stands. -/
theorem stepOf_binds {node : Node} {name : String} (mem : name ∈ node.binders) {context : Context}
    {above : Address} (top : context.address = some above) (stands : root.part? above = some node)
    {before after : Survey} (done : stepOf (readText fuel) node context before = .ok after)
    (inside : context.scope < before.frames.length)
    (undeclared : (after.frame context.scope).redirects.lookup name = none) :
    after.Has true context.scope name node.clause? := by
  unfold Node.binders at mem
  split at mem
  next bundle =>
    obtain ⟨part, among, given⟩ := List.mem_flatMap.1 mem
    obtain ⟨among, kind⟩ := List.mem_filter.1 among
    obtain ⟨i, here⟩ := List.getElem?_of_mem among
    have below (i : Nat) (part : Node) (here : node.children[i]? = some part) :=
      stands_child (fun found (place : context.address = some found) =>
        Option.some.inj (top.symm.trans place) ▸ stands) here
    have none : part.clause? = none ∧ node.clause? = none := by
      rw [Bool.or_eq_true] at bundle kind
      constructor
      next =>
        obtain is | is := kind <;> obtain ⟨parens, parts, rfl⟩ := Node.exists_branch is <;> rfl
      next =>
        obtain is | is := bundle <;> obtain ⟨parens, parts, rfl⟩ := Node.exists_branch is <;> rfl
    -- A bundle binds what its parts bind, and ticks once after all of them.
    have done : (Act.all [.each, .tick]).run (readText fuel) node
        (stepOf.partsOf (readText fuel) 0 node.children) context before = .ok after := by
      rw [Bool.or_eq_true] at bundle
      obtain is | is := bundle <;> obtain ⟨parens, parts, rfl⟩ := Node.exists_branch is <;> exact done
    obtain ⟨between, ran, ended⟩ := bind_eq_ok.1 done
    have ticks : (Act.all [.tick]).ticks = true := rfl
    have late := (Act.run_visits below (show (Act.all [.tick]).isPlain = true from rfl)).grows ended rfl
    obtain ⟨run, rfl, inner⟩ := loadAll_takes below here ran rfl
    have scope : run.context.scope = context.scope := (congrArg Context.scope inner :)
    have has := stepOf_gives given (run.stands.trans (by rw [top]; rfl))
      (by rw [Node.part?_concat, stands, Option.bind_some, here]) run.done
      (by rw [scope]; exact Nat.lt_of_lt_of_le inside run.early.length)
      (by rw [scope]; exact (run.late.trans late).undeclared _ _ undeclared)
    rw [scope, none.1] at has
    rw [none.2]
    exact Act.run_ticks below ticks rfl rfl ended (has.mono run.late)
  next =>
    split at mem
    next => exact absurd mem (by simp)
    next other =>
      have has := stepOf_gives mem top stands done inside undeclared
      simp only [Bool.or_eq_true, not_or, Bool.not_eq_true] at other
      simpa [other.1, other.2] using has

end

end Scope

end Graft
