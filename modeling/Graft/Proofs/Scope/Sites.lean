import Graft.Proofs.Scope.Growth
import Graft.Proofs.Scope.Own

set_option autoImplicit false

/-!
Where a survey sees calls. A call that is seen while a node is surveyed is that node or stands in one of
its parts, and it is seen in the scope of the node unless the part has another.
-/
namespace Graft

/-- Whether a part is evaluated where its node is. Other parts have a scope of their own, or belong to
the scope around one. -/
def Node.isOwnPart : Node → Nat → Bool
  | .branch .lambda _ _, _ => false
  | .branch .parameter _ _, _ => false
  | .branch .typeAlias _ _, _ => false
  | .branch .comprehension _ _, i => i == 5
  | .branch .generator _ _, i => i == 5
  | .branch .function _ parts, i => (i == 0 || i == 7) && (parts.getD 3 .absent).isAbsent
  | .branch .classDef _ parts, i => i == 0 || i == 5 && (parts.getD 3 .absent).isAbsent
  | _, _ => true

/-- Whether what stands below a node is evaluated where the node is. -/
def Node.isDirect (node : Node) : Address → Bool
  | [] => true
  | i :: rest => node.isOwnPart i && (node.children[i]?).any (·.isDirect rest)

namespace Scope

/-- Whether an act takes a part. -/
def Act.mentions (i : Nat) : Act → Bool
  | .nothing | .tick | .bind _ | .string | .imports | .globals | .nonlocals => false
  | .load part | .store part => part == i
  | .andThen first second => first.mentions i || second.mentions i
  | .within _ act | .outside act => act.mentions i
  | .withTypes types act => types == i || act.mentions i
  | .each | .alike | .hints | .call | .arguments | .subscript | .strings => true

/-- Whether an act takes a part only in its own scope; `absent` says which parts are left out. -/
def Act.keepsScope (absent : Nat → Bool) (i : Nat) : Act → Bool
  | .andThen first second => first.keepsScope absent i && second.keepsScope absent i
  | .within _ act | .outside act => !act.mentions i
  | .withTypes types act => if absent types then act.keepsScope absent i else types != i && !act.mentions i
  | _ => true

theorem keepsScope_of_isOwnPart {kind : Kind} {parens : Parens} {parts : List Node} {i : Nat}
    (own : (Node.branch kind parens parts).isOwnPart i = true) :
    (rule kind parts.length).keepsScope (fun part => (parts.getD part .absent).isAbsent) i = true := by
  generalize parts.length = count
  unfold rule
  split <;> first
    | rfl
    | exact absurd own Bool.false_ne_true
    | skip
  -- The kinds some of whose parts have another scope.
  all_goals simp only [Node.isOwnPart, List.getD_eq_getElem?_getD, Bool.and_eq_true, Bool.or_eq_true,
    beq_iff_eq] at own
  next => simp [own, Act.keepsScope, Act.all, rule.comprehended, Act.mentions]
  next => simp [own, Act.keepsScope, Act.all, rule.comprehended, Act.mentions]
  next =>
    obtain ⟨rfl | rfl, absent⟩ := own
    next => simp [absent, Act.keepsScope, Act.all, Act.mentions]
    next => simp [absent, Act.keepsScope, Act.all, Act.mentions]
  next =>
    obtain rfl | ⟨rfl, absent⟩ := own
    next => simp [Act.keepsScope, Act.all, Act.mentions]
    next => simp [absent, Act.keepsScope, Act.all, Act.mentions]

/-- Where no call stands, none is seen. -/
theorem sites_keptWhere (sites : List Site) :
    KeptWhere nowhere (fun _ _ => True) fun survey => survey.sites = sites where
  bind same _ _ _ _ _ _ := same
  tick same _ := same
  openScope same _ _ := same
  redirect same _ _ _ _ := same
  record _ call _ stands is _ := by
    cases call with
    | nil =>
      obtain rfl := Option.some.inj stands
      exact absurd is (by decide)
    | cons i rest => exact absurd stands (by simp [nowhere, Node.plain, Node.part?_cons])

theorem readText_sites (fuel : Nat) (text : List Char) (sites : List Site) :
    (readText fuel text).Keeps (fun survey => survey.sites = sites) none :=
  readText_keepsWhere (fun _ => True) (fun _ _ module _ _ reads =>
    stepOf_keepsWhere (sites_keptWhere sites) trivial module.root (fun _ _ _ _ _ => reads _ trivial) (by simp)
      fun _ _ _ => ⟨trivial, fun _ _ _ _ => trivial, fun _ _ _ _ => trivial⟩) fuel trivial

/-- The survey of a part of a node, while that of the node goes from one state to another. -/
structure Run (fuel : Nat) (node : Node) (path : Address) (address : Option Address)
    (before after : Survey) where
  part : Node
  context : Context
  first : Survey
  second : Survey
  here : node.part? path = some part
  stands : context.address = address.map (· ++ path)
  early : before.Grows first
  done : stepOf (readText fuel) part context first = .ok second
  late : second.Grows after

namespace Run

variable {fuel : Nat} {node : Node} {path : Address} {address : Option Address}
  {before first second after : Survey}

theorem getElem?_index {i : Nat} (run : Run fuel node [i] address before after) :
    node.children[i]? = some run.part := by
  have here := run.here
  rw [Node.part?_cons, Option.bind_eq_some_iff] at here
  obtain ⟨part, here, same⟩ := here
  exact here.trans same

theorem part?_root {root : Node} {above : Address} (run : Run fuel node path address before after)
    (stands : root.part? above = some node) : root.part? (above ++ path) = some run.part := by
  rw [Node.part?_append, stands, Option.bind_some, run.here]

theorem grows {root : Node} {above : Address} (run : Run fuel node path (some above) before after)
    (stands : root.part? above = some node) : run.first.Grows run.second := by
  have place : run.context.address = some (above ++ path) := run.stands
  have stood (found : Address) (same : run.context.address = some found) : root.part? found = some run.part := by
    rw [← Option.some.inj (place.symm.trans same)]
    exact run.part?_root stands
  exact stepOf_grows stood run.done

def widen (early : before.Grows first) (run : Run fuel node path address first second)
    (late : second.Grows after) : Run fuel node path address before after :=
  { run with
    early := early.trans run.early
    late := run.late.trans late }

/-- A run within a run. -/
def inside {rest : Address} (outer : Run fuel node path address before after)
    (inner : Run fuel outer.part rest outer.context.address outer.first outer.second) :
    Run fuel node (path ++ rest) address before after where
  part := inner.part
  context := inner.context
  first := inner.first
  second := inner.second
  here := by rw [Node.part?_append, outer.here, Option.bind_some, inner.here]
  stands := by rw [inner.stands, outer.stands, Option.map_map]; simp [Function.comp_def]
  early := outer.early.trans inner.early
  done := inner.done
  late := inner.late.trans outer.late

/-- The run of the node itself. -/
def whole {context : Context} (done : stepOf (readText fuel) node context before = .ok after) :
    Run fuel node [] context.address before after where
  part := node
  context
  first := before
  second := after
  here := rfl
  stands := by simp
  early := .refl before
  done
  late := .refl after

def Sees (run : Run fuel node path address before after) (site : Site) : Prop :=
  site ∉ run.first.sites ∧ site ∈ run.second.sites

end Run

/-- A step that sees calls in parts of a node only. `Allows` says in which part and scope, for the scope
of the step. -/
def Step.Visits (fuel : Nat) (node : Node) (address : Option Address)
    (Allows : Nat → Nat → Nat → Prop) (step : Step) : Prop :=
  ∀ context before after, context.address = address → step context before = .ok after →
    before.Grows after ∧ ∀ site ∉ before.sites, site ∈ after.sites →
      ∃ i, ∃ run : Run fuel node [i] address before after,
        run.Sees site ∧ Allows i run.context.scope context.scope

section

variable {root : Node} {fuel : Nat} {node : Node} {address : Option Address}
  {Allows : Nat → Nat → Nat → Prop}

namespace Step.Visits

/-- Most changes to a survey see no calls. -/
theorem of_sites {step : Step} (grows : ∀ context before after, context.address = address →
      step context before = .ok after → before.Grows after ∧ after.sites = before.sites) :
    step.Visits fuel node address Allows := by
  intro context before after stands done
  obtain ⟨grown, same⟩ := grows context before after stands done
  exact ⟨grown, fun site new seen => absurd (same ▸ seen) new⟩

theorem skip : Step.skip.Visits fuel node address Allows :=
  of_sites fun _ before _ _ done => Except.ok.inj done ▸ ⟨.refl before, rfl⟩

theorem tick : Step.tick.Visits fuel node address Allows :=
  of_sites fun context before _ _ done => Except.ok.inj done ▸ ⟨before.grows_tick context.scope, rfl⟩

theorem bind (name : String) (clause : Option Clause) :
    (Step.bind name clause).Visits fuel node address Allows :=
  of_sites fun _ before _ _ done => Except.ok.inj done ▸ ⟨before.grows_bind _ _ _ _, rfl⟩

theorem mono {Other : Nat → Nat → Nat → Prop} {step : Step} (visits : step.Visits fuel node address Allows)
    (allows : ∀ i scope outer, Allows i scope outer → Other i scope outer) :
    step.Visits fuel node address Other := by
  intro context before after stands done
  obtain ⟨grows, each⟩ := visits context before after stands done
  refine ⟨grows, fun site new seen => ?_⟩
  obtain ⟨i, run, sees, allowed⟩ := each site new seen
  exact ⟨i, run, sees, allows _ _ _ allowed⟩

theorem andThen {first second : Step} (head : first.Visits fuel node address Allows)
    (tail : second.Visits fuel node address Allows) :
    (first.andThen second).Visits fuel node address Allows := by
  intro context before after stands done
  obtain ⟨between, ran, ended⟩ := bind_eq_ok.1 done
  obtain ⟨early, heads⟩ := head context before between stands ran
  obtain ⟨late, tails⟩ := tail context between after stands ended
  refine ⟨early.trans late, fun site new seen => ?_⟩
  by_cases already : site ∈ between.sites
  next =>
    obtain ⟨i, run, sees, allowed⟩ := heads site new already
    exact ⟨i, run.widen (.refl before) late, sees, allowed⟩
  next =>
    obtain ⟨i, run, sees, allowed⟩ := tails site already seen
    exact ⟨i, run.widen early (.refl after), sees, allowed⟩

theorem all {steps : List Step} (each : ∀ step ∈ steps, step.Visits fuel node address Allows) :
    (Step.all steps).Visits fuel node address Allows := by
  induction steps with
  | nil => exact skip
  | cons step rest ih =>
    rw [Step.all_cons]
    exact (each step (by simp)).andThen (ih fun other mem => each other (by simp [mem]))

theorem adapted {adjust : Context → Context} {step : Step}
    (visits : step.Visits fuel node address Allows)
    (scope : ∀ context, (adjust context).scope = context.scope)
    (place : ∀ context, (adjust context).address = context.address) :
    (step.adapted adjust).Visits fuel node address Allows := by
  intro context before after stands done
  have := visits (adjust context) before after ((place context).trans stands) done
  rwa [scope] at this

theorem within {Inner : Nat → Nat → Nat → Prop} {step : Step}
    (visits : step.Visits fuel node address Inner)
    (allows : ∀ i scope inner outer, Inner i scope inner → Allows i scope outer) (region : Region) :
    (Step.within region step).Visits fuel node address Allows := by
  intro context before after stands done
  have opens := before.grows_openScope region context.scope
  obtain ⟨grows, each⟩ := visits (inScope context before.frames.length)
    (before.openScope region context.scope).2 after stands done
  refine ⟨opens.trans grows, fun site new seen => ?_⟩
  obtain ⟨i, run, sees, allowed⟩ := each site new seen
  exact ⟨i, run.widen opens (.refl after), sees, allows _ _ _ _ allowed⟩

theorem outside {Inner : Nat → Nat → Nat → Prop} {step : Step}
    (visits : step.Visits fuel node address Inner)
    (allows : ∀ i scope inner outer, Inner i scope inner → Allows i scope outer) :
    (Step.outside step).Visits fuel node address Allows := by
  intro context before after stands done
  obtain ⟨grows, each⟩ := visits (inScope context (before.frame context.scope).parent) before after
    stands done
  refine ⟨grows, fun site new seen => ?_⟩
  obtain ⟨i, run, sees, allowed⟩ := each site new seen
  exact ⟨i, run, sees, allows _ _ _ _ allowed⟩

theorem load {part : Part} (visits : part.step.Visits fuel node address Allows) :
    (Scope.load part).Visits fuel node address Allows := by
  unfold Scope.load
  exact visits.adapted (fun _ => rfl) fun _ => rfl

theorem store {part : Part} (visits : part.step.Visits fuel node address Allows) :
    (Scope.store part).Visits fuel node address Allows := by
  unfold Scope.store
  exact visits.adapted (fun _ => rfl) fun _ => rfl

end Step.Visits

theorem Step.Visits.of_part {i : Nat} {part : Node} (here : node.children[i]? = some part)
    (stands : ∀ found, address.map (· ++ [i]) = some found → root.part? found = some part) :
    ((stepOf (readText fuel) part).adapted (child · i)).Visits fuel node address
      fun index scope outer => index = i ∧ scope = outer := by
  intro context before after top done
  have place : (Scope.child context i).address = address.map (· ++ [i]) := by simp [Scope.child, top]
  have grows := stepOf_grows (place ▸ stands) done
  refine ⟨grows, fun site new seen => ⟨i, ⟨part, Scope.child context i, before, after, ?_, place,
    .refl before, done, .refl after⟩, ⟨new, seen⟩, rfl, rfl⟩⟩
  rw [Node.part?_cons, here]
  rfl

theorem readText_grows {text : List Char} {context : Context} (inside : context.address = none)
    {before after : Survey} (done : readText fuel text context before = .ok after) :
    before.Grows after ∧ after.sites = before.sites :=
  ⟨readText_keeps (before.grows_kept nowhere) fuel text context before after inside (.refl before) done,
    readText_sites fuel text before.sites context before after inside rfl done⟩

/-- Parts that are taken in the scope of the step. -/
def Part.Stays (fuel : Nat) (node : Node) (address : Option Address) (part : Part) : Prop :=
  part.step.Visits fuel node address fun _ scope outer => scope = outer

theorem loadAll_visits {chosen : List Part} (stay : ∀ part ∈ chosen, part.Stays fuel node address) :
    (loadAll chosen).Visits fuel node address fun _ scope outer => scope = outer := by
  refine .all fun step mem => ?_
  obtain ⟨part, among, rfl⟩ := List.mem_map.1 mem
  exact .load (stay part among)

theorem onArguments_visits {chosen : List Part} (stay : ∀ part ∈ chosen, part.Stays fuel node address) :
    (onArguments chosen).Visits fuel node address fun _ scope outer => scope = outer := by
  intro context before after stands done
  have all := loadAll_visits stay (loading context) before after stands
  cases called : context.call with
  | none => simp only [onArguments, called] at done; exact all done
  | newType =>
    cases chosen with
    | nil => simp only [onArguments, called] at done; exact all done
    | cons first rest =>
      simp only [onArguments, called] at done
      have others := loadAll_visits fun part (mem : part ∈ rest) => stay part (by simp [mem])
      exact others { loading context with typing := true } before after stands done
  | cast =>
    cases chosen with
    | nil => simp only [onArguments, called] at done; exact all done
    | cons first rest =>
      simp only [onArguments, called] at done
      have one := Step.Visits.load (stay first (by simp))
      have others := loadAll_visits fun part (mem : part ∈ rest) => stay part (by simp [mem])
      have hinted : ((load first).adapted fun context => { loading context with typing := true }).Visits
          fuel node address fun _ scope outer => scope = outer := one.adapted (fun _ => rfl) fun _ => rfl
      have plain : ((loadAll rest).adapted loading).Visits fuel node address
          fun _ scope outer => scope = outer := others.adapted (fun _ => rfl) fun _ => rfl
      exact hinted.andThen plain context before after stands done

theorem onSubscript_visits {chosen : List Part} (stay : ∀ part ∈ chosen, part.Stays fuel node address) :
    (onSubscript chosen).Visits fuel node address fun _ scope outer => scope = outer := by
  intro context before after stands done
  rw [onSubscript_eq] at done
  exact loadAll_visits stay { context with
    typing := (headNames chosen context before).any isTypingName
    verbatim := context.verbatim || (headNames chosen context before).any isLiteralName }
    before after stands done

theorem onString_visits {step : Step}
    (visits : step.Visits fuel node address Allows) :
    (onString (readText fuel) node step).Visits fuel node address Allows := by
  intro context before after stands done
  unfold onString at done
  split at done
  next =>
    obtain ⟨found, -, done⟩ := bind_eq_ok.1 done
    split at done
    next =>
      split at done
      next => exact visits context before after stands done
      next =>
        obtain ⟨grows, same⟩ := readText_grows rfl done
        exact ⟨grows, fun site new seen => absurd (same ▸ seen) new⟩
    next => exact visits context before after stands done
  next => exact visits context before after stands done

theorem redirects_grow (scope target : Nat) (names : List String) (survey : Survey) :
    survey.Grows (names.foldl (fun survey name => survey.redirect scope name target) survey) ∧
      (names.foldl (fun survey name => survey.redirect scope name target) survey).sites = survey.sites := by
  induction names generalizing survey with
  | nil => exact ⟨.refl survey, rfl⟩
  | cons name rest ih =>
    obtain ⟨grows, same⟩ := ih (survey.redirect scope name target)
    exact ⟨(survey.grows_redirect scope name target).trans grows, same⟩

theorem onGlobal_visits (chosen : List Part) :
    (onGlobal chosen).Visits fuel node address Allows := by
  refine .of_sites fun context before after _ done => ?_
  unfold onGlobal at done
  dsimp only at done
  split at done
  next =>
    obtain rfl := Except.ok.inj done
    exact ⟨before.grows_tick _, rfl⟩
  next =>
    obtain rfl := Except.ok.inj done
    obtain ⟨grows, same⟩ := redirects_grow context.scope 0 (declaredNames chosen) before
    exact ⟨grows.trans (Survey.grows_tick _ _), same⟩

theorem onNonlocal_visits (chosen : List Part) :
    (onNonlocal chosen).Visits fuel node address Allows := by
  refine .of_sites fun context before after _ done => ?_
  unfold onNonlocal at done
  dsimp only at done
  split at done
  next => exact absurd done (by simp)
  next =>
    obtain rfl := Except.ok.inj done
    obtain ⟨grows, same⟩ := redirects_grow context.scope (before.frame context.scope).parent
      (declaredNames chosen) before
    exact ⟨grows.trans (Survey.grows_tick _ _), same⟩

theorem onImport_visits : (onImport node).Visits fuel node address Allows := by
  cases said : node.clause? with
  | none =>
    unfold onImport
    rw [said]
    exact .tick
  | some clause =>
    rw [onImport_of_clause said]
    refine .all fun step mem => ?_
    obtain among | among := List.mem_append.1 mem
    next =>
      obtain ⟨name, -, rfl⟩ := List.mem_map.1 among
      exact .bind name _
    next =>
      obtain rfl := List.mem_singleton.1 among
      exact .tick

theorem grows_recordAt (context : Context) (survey : Survey) : survey.Grows (recordAt context survey) := by
  unfold recordAt
  split
  next => exact survey.grows_record _ _
  next => exact .refl survey

theorem mem_recordAt {context : Context} {survey : Survey} {site : Site} (new : site ∉ survey.sites)
    (seen : site ∈ (recordAt context survey).sites) :
    context.address = some site.call ∧ site.scope = context.scope := by
  unfold recordAt at seen
  split at seen
  next call place =>
    obtain rfl := (List.mem_cons.1 seen).resolve_right new
    exact ⟨place, rfl⟩
  next => exact absurd seen new

theorem node_partAt (read : List Char → Step) (parts : List Node) (i : Nat) :
    (partAt (stepOf.partsOf read 0 parts) i).node = parts.getD i .absent := by
  unfold partAt
  rw [List.getD_eq_getElem?_getD, List.getD_eq_getElem?_getD, getElem?_partsOf]
  cases parts[i]? <;> rfl

variable (below : ∀ (i : Nat) part, node.children[i]? = some part → ∀ found, address.map (· ++ [i]) = some found →
  root.part? found = some part)

include below

theorem stays_partsOf : ∀ part ∈ stepOf.partsOf (readText fuel) 0 node.children, part.Stays fuel node address := by
  intro part mem
  obtain ⟨i, part, here, rfl⟩ := mem_partsOf.1 mem
  rw [Nat.zero_add]
  exact (Step.Visits.of_part here (below i part here)).mono fun _ _ _ allowed => allowed.2

theorem partAt_visits (i : Nat) :
    (partAt (stepOf.partsOf (readText fuel) 0 node.children) i).step.Visits fuel node address
      fun index scope outer => index = i ∧ scope = outer := by
  unfold partAt
  rw [List.getD_eq_getElem?_getD, getElem?_partsOf]
  cases here : node.children[i]? with
  | none => exact .skip
  | some part =>
    simp only [Option.map_some, Option.getD_some, Nat.zero_add]
    exact .of_part here (below i part here)

/-- The calls that an act sees are in the parts that it takes. -/
theorem Act.run_visits {act : Act} (plain : act.isPlain = true) :
    (act.run (readText fuel) node (stepOf.partsOf (readText fuel) 0 node.children)).Visits
      fuel node address fun i scope outer => act.mentions i = true ∧
        (act.keepsScope (fun part => (node.children.getD part .absent).isAbsent) i = true → scope = outer) := by
  have stay := @stays_partsOf _ fuel _ _ below
  induction act with
  | nothing => exact .skip
  | tick => exact .tick
  | bind part => exact .bind _ _
  | globals => exact onGlobal_visits _
  | nonlocals => exact onNonlocal_visits _
  | imports => exact absurd plain (by decide)
  | call => exact absurd plain (by decide)
  | load part =>
    refine (Step.Visits.load (partAt_visits below part)).mono ?_
    rintro i scope outer ⟨rfl, rfl⟩
    exact ⟨by simp [mentions], fun _ => rfl⟩
  | store part =>
    refine (Step.Visits.store (partAt_visits below part)).mono ?_
    rintro i scope outer ⟨rfl, rfl⟩
    exact ⟨by simp [mentions], fun _ => rfl⟩
  | each => exact (loadAll_visits stay).mono fun _ _ _ same => ⟨rfl, fun _ => same⟩
  | alike =>
    refine (Step.Visits.all fun step mem => ?_).mono fun _ _ _ same => ⟨rfl, fun _ => same⟩
    obtain ⟨part, among, rfl⟩ := List.mem_map.1 mem
    exact stay part among
  | hints =>
    have hinted : ((loadAll (stepOf.partsOf (readText fuel) 0 node.children)).adapted fun context =>
        { context with hinting := true }).Visits fuel node address fun _ scope outer => scope = outer :=
      (loadAll_visits stay).adapted (fun _ => rfl) fun _ => rfl
    exact hinted.mono fun _ _ _ same => ⟨rfl, fun _ => same⟩
  | arguments => exact (onArguments_visits stay).mono fun _ _ _ same => ⟨rfl, fun _ => same⟩
  | subscript => exact (onSubscript_visits stay).mono fun _ _ _ same => ⟨rfl, fun _ => same⟩
  | string => exact onString_visits .skip
  | strings =>
    exact (onString_visits (loadAll_visits stay)).mono fun _ _ _ same => ⟨rfl, fun _ => same⟩
  | andThen first second ihFirst ihSecond =>
    rw [isPlain, Bool.and_eq_true] at plain
    have head := ihFirst plain.1
    have tail := ihSecond plain.2
    refine .andThen (head.mono fun i scope outer allowed => ?_) (tail.mono fun i scope outer allowed => ?_)
    all_goals
      obtain ⟨taken, keeps⟩ := allowed
      simp only [mentions, keepsScope, taken, Bool.or_true, Bool.true_or, Bool.and_eq_true, true_and]
    next => exact fun both => keeps both.1
    next => exact fun both => keeps both.2
  | within region act ih =>
    refine (ih plain).within (fun i scope inner outer allowed => ⟨allowed.1, fun keeps => ?_⟩) region
    exact absurd allowed.1 (by simpa [keepsScope] using keeps)
  | outside act ih =>
    refine (ih plain).outside fun i scope inner outer allowed => ⟨allowed.1, fun keeps => ?_⟩
    exact absurd allowed.1 (by simpa [keepsScope] using keeps)
  | withTypes types act ih =>
    -- With type parameters the whole act runs in a scope of its own; without any it is as the act alone.
    have body := ih plain
    unfold run Scope.withTypes
    rw [node_partAt]
    split
    next absent =>
      refine body.mono fun i scope outer allowed => ⟨by simp [mentions, allowed.1], ?_⟩
      simpa only [keepsScope, if_pos absent] using allowed.2
    next present =>
      have head := Step.Visits.load (@partAt_visits _ fuel _ _ below types)
      have both : ((Scope.load (partAt (stepOf.partsOf (readText fuel) 0 node.children) types)).andThen
          (act.run (readText fuel) node (stepOf.partsOf (readText fuel) 0 node.children))).Visits
            fuel node address fun i _ _ => types = i ∨ act.mentions i = true :=
        (head.mono fun i scope outer allowed => .inl allowed.1.symm).andThen
          (body.mono fun i scope outer allowed => .inr allowed.1)
      refine both.within (fun i scope inner outer taken => ⟨by simpa [mentions] using taken, fun keeps => ?_⟩)
        .generic
      simp only [keepsScope, if_neg present, Bool.and_eq_true, bne_iff_ne, Bool.not_eq_true'] at keeps
      obtain same | taken := taken
      next => exact absurd same keeps.1
      next => exact absurd taken (by simp [keeps.2])

theorem onCall_sees {context : Context} (top : context.address = address)
    {before after : Survey} (done : onCall node (partAt (stepOf.partsOf (readText fuel) 0 node.children) 0)
      (partAt (stepOf.partsOf (readText fuel) 0 node.children) 2) context before = .ok after) {site : Site}
    (new : site ∉ before.sites) (seen : site ∈ after.sites) :
    context.address = some site.call ∧ site.scope = context.scope ∨
      ∃ i, ∃ run : Run fuel node [i] address before after, run.Sees site ∧
        run.context.scope = context.scope := by
  rw [onCall_eq] at done
  have records := grows_recordAt context before
  by_cases own : site ∈ (recordAt context before).sites
  next => exact .inl (mem_recordAt new own)
  let inner : Context := { loading context with typing := false }
  obtain ⟨middle, ran, ended⟩ := bind_eq_ok.1 done
  obtain ⟨early, heads⟩ := partAt_visits below 0 inner _ middle top ran
  obtain ⟨late, tails⟩ := partAt_visits below 2 { inner with
    call := typingCallOf (calledNames node context (recordAt context before)) } middle after top ended
  by_cases called : site ∈ middle.sites
  next =>
    obtain ⟨i, run, sees, -, scope⟩ := heads site own called
    exact .inr ⟨i, run.widen records late, sees, scope⟩
  next =>
    obtain ⟨i, run, sees, -, scope⟩ := tails site called seen
    exact .inr ⟨i, run.widen (records.trans early) (.refl after), sees, scope⟩

omit below

/-- A call that is seen while a node is surveyed is that node, or is seen in one of its parts. -/
theorem stepOf_sees {context : Context}
    (stands : ∀ found, context.address = some found → root.part? found = some node) {before after : Survey}
    (done : stepOf (readText fuel) node context before = .ok after) {site : Site}
    (new : site ∉ before.sites) (seen : site ∈ after.sites) :
    context.address = some site.call ∧ site.scope = context.scope ∨
      ∃ i, ∃ run : Run fuel node [i] context.address before after, run.Sees site ∧
        (node.isOwnPart i = true → run.context.scope = context.scope) := by
  cases node with
  | leaf l => exact absurd (Except.ok.inj done ▸ seen) new
  | name parens id =>
    have idle : (stepOf (readText fuel) (.name parens id)).Visits fuel (.name parens id) context.address
        fun _ _ _ => False := by
      refine .of_sites fun context before after _ done => ?_
      unfold stepOf at done
      split at done
      next => obtain rfl := Except.ok.inj done; exact ⟨before.grows_bind _ _ _ _, rfl⟩
      next => obtain rfl := Except.ok.inj done; exact ⟨.refl before, rfl⟩
    obtain ⟨-, -, -, never⟩ := (idle context before after rfl done).2 site new seen
    exact never.elim
  | branch kind parens parts =>
    have below (i : Nat) (part : Node) (here : (Node.branch kind parens parts).children[i]? = some part) :=
      stands_child stands here
    have idle : (onImport (.branch kind parens parts)).Visits fuel (.branch kind parens parts) context.address
        fun _ _ _ => False := onImport_visits
    unfold stepOf at done
    -- Only the act of a call records one itself; what other acts see is in their parts.
    obtain called | importing | plain := rule_cases kind parts.length
    next =>
      rw [called] at done
      refine (onCall_sees below rfl done new seen).imp id ?_
      rintro ⟨i, run, sees, scope⟩
      exact ⟨i, run, sees, fun _ => scope⟩
    next =>
      rw [importing] at done
      obtain ⟨-, -, -, never⟩ := (idle context before after rfl done).2 site new seen
      exact never.elim
    next =>
      obtain ⟨i, run, sees, -, scope⟩ :=
        (Act.run_visits below plain context before after rfl done).2 site new seen
      exact .inr ⟨i, run, sees, fun own => scope (keepsScope_of_isOwnPart own)⟩

/-- A call that is seen while a node is surveyed stands there, and is seen in the survey of each node that
it stands in. -/
theorem exists_run {context : Context} {above : Address} (top : context.address = some above)
    (stands : root.part? above = some node) {before after : Survey}
    (done : stepOf (readText fuel) node context before = .ok after) {site : Site}
    (new : site ∉ before.sites) (seen : site ∈ after.sites) :
    ∃ path, site.call = above ++ path ∧ ∀ first rest, path = first ++ rest →
      ∃ run : Run fuel node first context.address before after, run.Sees site ∧
        (node.isDirect first = true → run.context.scope = context.scope) ∧
          (rest = [] → site.scope = run.context.scope) := by
  -- The path to the call is found from the top, and the runs along it are nested.
  induction node using Node.inductChildren generalizing context above before after with
  | each node ih =>
    obtain ⟨own, scope⟩ | ⟨i, outer, sees, stays⟩ := stepOf_sees
      (fun found place => Option.some.inj (top.symm.trans place) ▸ stands) done new seen
    next =>
      refine ⟨[], by simpa using Option.some.inj (own.symm.trans top), fun first rest whole => ?_⟩
      obtain ⟨rfl, rfl⟩ := List.append_eq_nil_iff.1 whole.symm
      exact ⟨.whole done, ⟨new, seen⟩, fun _ => rfl, fun _ => scope⟩
    next =>
      have here := outer.getElem?_index
      have place : outer.context.address = some (above ++ [i]) := by rw [outer.stands, top]; rfl
      obtain ⟨path, call, runs⟩ := ih outer.part (List.mem_of_getElem? here) place
        (outer.part?_root stands) outer.done sees.1 sees.2
      refine ⟨i :: path, by simpa using call, fun first rest whole => ?_⟩
      cases first with
      | nil => exact ⟨.whole done, ⟨new, seen⟩, fun _ => rfl, fun none => absurd (none ▸ whole) (by simp)⟩
      | cons j first =>
        injection whole with same whole
        subst same
        obtain ⟨inner, sees, direct, ends⟩ := runs first rest whole
        refine ⟨outer.inside inner, sees, fun stay => ?_, ends⟩
        unfold Node.isDirect at stay
        rw [here, Option.any_some, Bool.and_eq_true] at stay
        exact (direct stay.2).trans (stays stay.1)

end

end Scope

end Graft
