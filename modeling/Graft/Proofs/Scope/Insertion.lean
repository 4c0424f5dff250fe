import Graft.Proofs.Scope.Bindings
import Graft.Proofs.Scope.Names
import Mathlib.Data.List.Forall2

set_option autoImplicit false

/-!
Surveys of a module with more imports in it. From the inserted imports on, the scope of the module
counts further than it did; the imports bind names that nothing else in the module mentions.
-/
namespace Graft.Scope

namespace Survey

/-- The bindings of a name in a scope. -/
def own (survey : Survey) (scope : Nat) (name : String) : List Binding :=
  (survey.frame scope).bindings.filter fun binding => binding.name == name

theorem isGrounded_iff {survey : Survey} :
    survey.IsGrounded ↔ 0 < survey.frames.length ∧ (survey.frame 0).redirects = [] := by
  obtain ⟨frames, sites⟩ := survey
  cases frames <;> simp [IsGrounded, frame]

end Survey

/-- A count, and what it is after so many constructs have come in at a clock. What must be finished
is finished before they come in. -/
def Delayed (since count : Nat) (finished : Prop) (first second : Nat) : Prop :=
  second = first ∧ first ≤ since ∧ (finished → first < since) ∨ second = first + count ∧ since ≤ first

/-- Constructs come in only in the scope of the module. -/
def atModule (scope value : Nat) : Nat := if scope = 0 then value else 0

/-- A binding of the same name by the same statement, delayed. -/
structure Binding.Delays (since count scope : Nat) (first second : Binding) : Prop where
  clause : second.clause = first.clause
  stamp : Delayed (atModule scope since) (atModule scope count) (first.clause.isSome = true)
    first.stamp second.stamp

/-- The same call at its new place, delayed. -/
structure Site.Delays (root : Node) (place : Address → Address) (since count : Nat)
    (first second : Site) : Prop where
  isCall : ∃ node, root.part? first.call = some node ∧ node.isA .call = true
  call : second.call = place first.call
  scope : second.scope = first.scope
  stamp : Delayed (atModule first.scope since) (atModule first.scope count) False
    first.stamp second.stamp

/-- The second survey has so many more imports, of other names, in the scope of the module. -/
structure Grown (root : Node) (names : List String) (place : Address → Address) (since count : Nat)
    (first second : Survey) : Prop where
  length : second.frames.length = first.frames.length
  occupied : 0 < first.frames.length
  region : ∀ scope, (second.frame scope).region = (first.frame scope).region
  parent : ∀ scope, (second.frame scope).parent = (first.frame scope).parent
  redirects : ∀ scope, (second.frame scope).redirects = (first.frame scope).redirects
  clock : ∀ scope, (second.frame scope).clock = (first.frame scope).clock + atModule scope count
  reached : since ≤ (first.frame 0).clock
  own : ∀ scope name, name ∉ names →
    List.Forall₂ (Binding.Delays since count scope) (first.own scope name) (second.own scope name)
  sites : List.Forall₂ (Site.Delays root place since count) first.sites second.sites

theorem isEmpty_of_forall₂ {A B : Type} {R : A → B → Prop} {first : List A} {second : List B}
    (paired : List.Forall₂ R first second) : second.isEmpty = first.isEmpty := by
  cases paired <;> rfl

namespace Grown

variable {root : Node} {names : List String} {place : Address → Address} {since count : Nat}
  {first second : Survey} (grown : Grown root names place since count first second)

include grown

theorem hides (scope reader : Nat) : second.hides scope reader = first.hides scope reader := by
  unfold Survey.hides
  rw [grown.region, grown.region, grown.parent]

theorem resolveFrom {name : String} (other : name ∉ names) (reader fuel scope : Nat) :
    (second.resolveFrom name reader fuel scope).1 = (first.resolveFrom name reader fuel scope).1 ∧
      List.Forall₂ (Binding.Delays since count (first.resolveFrom name reader fuel scope).1)
        (first.resolveFrom name reader fuel scope).2 (second.resolveFrom name reader fuel scope).2 := by
  induction fuel generalizing scope with
  | zero => exact ⟨rfl, .nil⟩
  | succ fuel ih =>
    have here := grown.own scope name other
    have empty : (second.own scope name).isEmpty = (first.own scope name).isEmpty :=
      isEmpty_of_forall₂ here
    unfold Survey.own at here empty
    simp only [Survey.resolveFrom, grown.hides, grown.parent, grown.redirects]
    split
    next => exact ih _
    next =>
      split
      next => exact ih _
      next =>
        rw [empty]
        split
        next => exact ih _
        next => exact ⟨rfl, here⟩

theorem resolve {name : String} (other : name ∉ names) (scope : Nat) :
    (second.resolve name scope).1 = (first.resolve name scope).1 ∧
      List.Forall₂ (Binding.Delays since count (first.resolve name scope).1)
        (first.resolve name scope).2 (second.resolve name scope).2 := by
  unfold Survey.resolve
  rw [grown.length]
  exact grown.resolveFrom other scope _ scope

theorem knows {name : String} (other : name ∉ names) (scope : Nat) :
    second.knows name scope = first.knows name scope := by
  unfold Survey.knows
  rw [isEmpty_of_forall₂ (grown.resolve other scope).2]

omit grown in
theorem flatMap_referents {scope : Nat} {bindings delayed : List Binding}
    (delays : List.Forall₂ (Binding.Delays since count scope) bindings delayed) (text : String) :
    delayed.flatMap (·.referents text) = bindings.flatMap (·.referents text) := by
  induction delays with
  | nil => rfl
  | cons head _ ih =>
    rw [List.flatMap_cons, List.flatMap_cons, ih, Binding.referents, Binding.referents, head.clause]

theorem looseReferents {text : String} (other : ∀ part ∈ prefixes text, part ∉ names) (scope : Nat) :
    second.looseReferents scope text = first.looseReferents scope text := by
  have found : ((prefixes text).find? fun part => second.knows part scope) =
      (prefixes text).find? fun part => first.knows part scope := by
    have known : ∀ part ∈ prefixes text, second.knows part scope = first.knows part scope :=
      fun part mem => grown.knows (other part mem) scope
    generalize prefixes text = parts at known
    induction parts with
    | nil => rfl
    | cons part rest ih =>
      rw [List.find?_cons, List.find?_cons, known part (by simp), ih fun later mem => known later (by simp [mem])]
  unfold Survey.looseReferents
  rw [found]
  split
  next part here => exact flatMap_referents (grown.resolve (other part (List.mem_of_find?_eq_some here)) scope).2 text
  next => rfl

theorem targetOf (name : String) (fuel scope : Nat) :
    second.targetOf name fuel scope = first.targetOf name fuel scope := by
  have outward (fuel scope : Nat) : Survey.targetOf.outward second fuel scope =
      Survey.targetOf.outward first fuel scope := by
    induction fuel generalizing scope with
    | zero => rfl
    | succ fuel ih => simp only [Survey.targetOf.outward, grown.region, grown.parent, ih]
  induction fuel generalizing scope with
  | zero => rfl
  | succ fuel ih => simp only [Survey.targetOf, grown.redirects, outward, ih]

/-- The scopes stay related if one of them changes in step. -/
theorem updated {scope : Nat} {change change' : Frame → Frame}
    (region : (change' (second.frame scope)).region = (change (first.frame scope)).region)
    (parent : (change' (second.frame scope)).parent = (change (first.frame scope)).parent)
    (redirects : (change' (second.frame scope)).redirects = (change (first.frame scope)).redirects)
    (clock : (change' (second.frame scope)).clock =
      (change (first.frame scope)).clock + atModule scope count)
    (advances : (first.frame scope).clock ≤ (change (first.frame scope)).clock)
    (own : ∀ name, name ∉ names → List.Forall₂ (Binding.Delays since count scope)
      ((change (first.frame scope)).bindings.filter fun binding => binding.name == name)
      ((change' (second.frame scope)).bindings.filter fun binding => binding.name == name)) :
    Grown root names place since count (first.updateFrame scope change)
      (second.updateFrame scope change') where
  length := by simp [grown.length]
  occupied := by simpa using grown.occupied
  region i := by
    rw [Survey.frame_updateFrame, Survey.frame_updateFrame, grown.length]
    split
    next here => rw [← here.1, region]
    next => exact grown.region i
  parent i := by
    rw [Survey.frame_updateFrame, Survey.frame_updateFrame, grown.length]
    split
    next here => rw [← here.1, parent]
    next => exact grown.parent i
  redirects i := by
    rw [Survey.frame_updateFrame, Survey.frame_updateFrame, grown.length]
    split
    next here => rw [← here.1, redirects]
    next => exact grown.redirects i
  clock i := by
    rw [Survey.frame_updateFrame, Survey.frame_updateFrame, grown.length]
    split
    next here => rw [← here.1, clock]
    next => exact grown.clock i
  reached := by
    rw [Survey.frame_updateFrame]
    split
    next here => exact Nat.le_trans grown.reached (here.1 ▸ advances)
    next => exact grown.reached
  own i name other := by
    unfold Survey.own
    rw [Survey.frame_updateFrame, Survey.frame_updateFrame, grown.length]
    split
    next here => exact here.1 ▸ own name other
    next => exact grown.own i name other
  sites := grown.sites

theorem tick (scope : Nat) :
    Grown root names place since count (first.tick scope) (second.tick scope) :=
  grown.updated (grown.region scope) (grown.parent scope) (grown.redirects scope)
    (by simp only [grown.clock scope]; omega) (Nat.le_succ _) (grown.own scope)

theorem redirect (scope : Nat) (name : String) (target : Nat) :
    Grown root names place since count (first.redirect scope name target)
      (second.redirect scope name target) :=
  grown.updated (grown.region scope) (grown.parent scope) (by simp only [grown.redirects scope])
    (grown.clock scope) (Nat.le_refl _) (grown.own scope)

theorem bind (scope : Nat) {name : String} (clause : Option Clause) (origin origin' : Option Address) :
    Grown root names place since count (first.bind scope name clause origin)
      (second.bind scope name clause origin') := by
  unfold Survey.bind
  rw [grown.length, grown.targetOf]
  generalize first.targetOf name (first.frames.length + 1) scope = target
  refine grown.updated (grown.region target) (grown.parent target) (grown.redirects target)
    (grown.clock target) (Nat.le_refl _) fun wanted other => ?_
  simp only [List.filter_append]
  refine List.rel_append (grown.own target wanted other) ?_
  by_cases same : name = wanted
  next =>
    simp only [same, List.filter_cons, beq_self_eq_true, if_pos, List.filter_nil]
    refine .cons ⟨rfl, .inr ⟨grown.clock target, ?_⟩⟩ .nil
    unfold atModule
    split
    next inner => exact inner ▸ grown.reached
    next => exact Nat.zero_le _
  next => simp [same]

theorem openScope (region : Region) (parent : Nat) :
    Grown root names place since count (first.openScope region parent).2 (second.openScope region parent).2 := by
  have occupied := grown.occupied
  constructor
  case length => simp [Survey.openScope, grown.length]
  case occupied => simp [Survey.openScope]
  case region =>
    intro i
    rw [Survey.frame_openScope, Survey.frame_openScope, grown.length]
    split
    next => rfl
    next => exact grown.region i
  case parent =>
    intro i
    rw [Survey.frame_openScope, Survey.frame_openScope, grown.length]
    split
    next => rfl
    next => exact grown.parent i
  case redirects =>
    intro i
    rw [Survey.frame_openScope, Survey.frame_openScope, grown.length]
    split
    next => rfl
    next => exact grown.redirects i
  case clock =>
    intro i
    rw [Survey.frame_openScope, Survey.frame_openScope, grown.length]
    split
    next last =>
      -- Only the scope of the module is delayed, and that has been opened before.
      have inner : i ≠ 0 := by omega
      simp [atModule, inner]
    next => exact grown.clock i
  case reached =>
    rw [Survey.frame_openScope, if_neg (by omega)]
    exact grown.reached
  case own =>
    intro i name other
    unfold Survey.own
    rw [Survey.frame_openScope, Survey.frame_openScope, grown.length]
    split
    next => exact .nil
    next => exact grown.own i name other
  case sites => exact grown.sites

theorem record {call node : _} (stands : root.part? call = some node) (is : node.isA .call = true)
    (scope : Nat) : Grown root names place since count (first.record call scope)
      (second.record (place call) scope) :=
  { grown with
    sites := by
      refine .cons ⟨⟨node, stands, is⟩, rfl, rfl, .inr ⟨grown.clock scope, ?_⟩⟩ grown.sites
      change atModule scope since ≤ (first.frame scope).clock
      unfold atModule
      split
      next inner => exact inner ▸ grown.reached
      next => exact Nat.zero_le _ }

omit grown in
theorem filter_referents {scope : Nat} {bindings delayed : List Binding}
    (delays : List.Forall₂ (Binding.Delays since count scope) bindings delayed) {stamp later : Nat}
    (late : Delayed (atModule scope since) (atModule scope count) False stamp later) (text : String)
    (imports : ∀ binding ∈ delayed.filter fun binding => binding.stamp < later,
      binding.clause.isSome = true) :
    (delayed.filter fun binding => binding.stamp < later).flatMap (·.referents text) =
      (bindings.filter fun binding => binding.stamp < stamp).flatMap (·.referents text) := by
  induction delays with
  | nil => rfl
  | @cons first second rest more head _ ih =>
    have heads := head.stamp
    have same : second.referents text = first.referents text := by
      rw [Binding.referents, Binding.referents, head.clause]
    simp only [List.filter_cons] at imports ⊢
    by_cases seen : second.stamp < later
    next =>
      simp only [seen, decide_true, if_true, List.mem_cons, forall_eq_or_imp] at imports
      -- An import that is seen later was finished when the others came in, so that it was seen before as well.
      have before : first.stamp < stamp := by
        have finished : first.clause.isSome = true := by rw [← head.clause]; exact imports.1
        unfold Delayed at late
        obtain ⟨kept, -, below⟩ | ⟨moved, reached⟩ := heads
        next =>
          have early := below finished
          omega
        next => omega
      simp only [seen, before, decide_true, if_true, List.flatMap_cons, same, ih imports.2]
    next =>
      have after : ¬ first.stamp < stamp := by
        unfold Delayed at late heads
        omega
      simp only [seen, decide_false] at imports
      simpa [seen, after] using ih (by simpa using imports)

omit grown in
theorem stamp_of_inner {scope : Nat} (inner : scope ≠ 0) {finished : Prop} {stamp later : Nat}
    (late : Delayed (atModule scope since) (atModule scope count) finished stamp later) : later = stamp := by
  simp only [Delayed, atModule, if_neg inner] at late
  omega

omit grown in
/-- Outside the scope of the module nothing is delayed. -/
theorem filter_delays {scope : Nat} (inner : scope ≠ 0) {bindings delayed : List Binding}
    (delays : List.Forall₂ (Binding.Delays since count scope) bindings delayed) (stamp : Nat) :
    List.Forall₂ (Binding.Delays since count scope)
      (bindings.filter fun binding => binding.stamp < stamp)
      (delayed.filter fun binding => binding.stamp < stamp) := by
  induction delays with
  | nil => exact .nil
  | cons head _ ih =>
    simp only [List.filter_cons, stamp_of_inner inner head.stamp]
    split
    next => exact .cons head ih
    next => exact ih

/-- Where all that is seen is imported, the same has been seen before. -/
theorem seen_referents {site later : Site} (delays : site.Delays root place since count later)
    {name : String} (other : name ∉ names) (text : String)
    (imports : ∀ binding ∈ second.seen later.scope later.stamp name, binding.clause.isSome = true) :
    (second.seen later.scope later.stamp name).flatMap (·.referents text) =
      (first.seen site.scope site.stamp name).flatMap (·.referents text) := by
  obtain ⟨call, scope, stamp⟩ := later
  obtain rfl : scope = site.scope := delays.scope
  obtain ⟨owner, found⟩ := grown.resolve other site.scope
  have late := delays.stamp
  simp only [Survey.seen, grown.parent] at imports ⊢
  generalize first.resolve name site.scope = here at owner found
  generalize second.resolve name site.scope = there at owner found imports ⊢
  obtain ⟨_, bindings⟩ := here
  obtain ⟨target, delayed⟩ := there
  obtain rfl := owner
  simp only at found imports ⊢
  -- In the scope of the module the new imports shift the stamps; in all others the stamps are the same.
  by_cases module : site.scope = 0
  next =>
    simp only [module, bne_self_eq_false, Bool.and_false, Bool.false_eq_true, if_false] at imports late ⊢
    split at imports
    next here =>
      subst here
      rw [if_pos rfl, if_pos rfl]
      exact filter_referents found late text imports
    next => simp only [*, if_false]; exact flatMap_referents found text
  next =>
    have earlier : List.Forall₂ (Binding.Delays since count target)
        (if target = site.scope then bindings.filter fun binding => binding.stamp < site.stamp else bindings)
        (if target = site.scope then delayed.filter fun binding => binding.stamp < stamp else delayed) := by
      split
      next here =>
        subst here
        rw [show stamp = site.stamp from stamp_of_inner module late]
        exact filter_delays module found site.stamp
      next => exact found
    generalize (if target = site.scope then bindings.filter fun binding => binding.stamp < site.stamp
      else bindings) = before at earlier ⊢
    generalize (if target = site.scope then delayed.filter fun binding => binding.stamp < stamp
      else delayed) = after at earlier ⊢
    rw [isEmpty_of_forall₂ earlier, isEmpty_of_forall₂ found]
    split
    next => exact flatMap_referents (grown.resolve other _).2 text
    next => exact flatMap_referents earlier text

/-- A call that can only be of one export could only be of that export before. -/
theorem agreed {site later : Site} (delays : site.Delays root place since count later)
    {callee image : Node} (fullName : image.fullName = callee.fullName)
    (looseName : looseName? image = looseName? callee) (full : callee.fullName ∉ names)
    (loose : ∀ text, looseName? callee = some text → ∀ part ∈ prefixes text, part ∉ names)
    {qualified : String} (agrees : agreed? (second.referents later image) = some qualified) :
    agreed? (first.referents site callee) = some qualified := by
  have scope : later.scope = site.scope := delays.scope
  simp only [Survey.referents, fullName, looseName, scope, grown.knows full] at agrees ⊢
  split at agrees
  next known =>
    rw [if_pos known]
    rw [← scope] at agrees
    refine grown.seen_referents delays full callee.fullName (fun binding mem => ?_) ▸ agrees
    cases made : binding.clause with
    | some clause => rfl
    | none =>
      -- One binding that is no import would keep the callee from being of one export.
      have other : Referent.other ∈ (second.seen later.scope later.stamp callee.fullName).flatMap
          (·.referents callee.fullName) :=
        List.mem_flatMap.2 ⟨binding, mem, by simp [Binding.referents, made]⟩
      exact absurd (agreed?_eq_some agrees _ other) (by simp)
  next known =>
    rw [if_neg known]
    cases named : looseName? callee with
    | none => rwa [named] at agrees
    | some text =>
      rw [named] at agrees
      simp only at agrees ⊢
      rwa [grown.looseReferents (loose text named)] at agrees

theorem exists_siteOf? {call : Address} {later : Site} (found : second.siteOf? call = some later) :
    ∃ site, first.siteOf? site.call = some site ∧ site.Delays root place since count later ∧
      call = place site.call := by
  have sites := grown.sites
  unfold Survey.siteOf? at found ⊢
  generalize first.sites = before at sites ⊢
  generalize second.sites = after at sites found
  induction sites with
  | nil => exact absurd found (by simp)
  | @cons site image rest more head _ ih =>
    rw [List.find?_cons] at found
    split at found
    next here =>
      obtain rfl := Option.some.inj found
      exact ⟨site, by simp, head, (eq_of_beq here).symm.trans head.call⟩
    next apart =>
      obtain ⟨known, first, delays, place⟩ := ih found
      refine ⟨known, ?_, delays, place⟩
      rw [List.find?_cons]
      split
      next same =>
        have clash : image.call = call := by rw [head.call, eq_of_beq same, place]
        exact absurd clash (by simpa using apart)
      next => exact first

omit grown in
theorem mirror (root : Node) (names : List String) (place : Address → Address) (since count : Nat) :
    Mirror root (fun name _ => name ∉ names) place (Grown root names place since count) where
  parent grown scope := grown.parent scope
  length grown := grown.length
  imported grown context text other := by
    unfold importedAt
    rw [grown.looseReferents other]
  bind grown scope name clause origin _ _ := grown.bind scope clause origin _
  tick grown scope := grown.tick scope
  openScope grown region parent := grown.openScope region parent
  redirect grown scope _ name target := grown.redirect scope name target
  record grown call node stands is scope := grown.record stands is scope

end Grown

/-- Nothing in the scope of the module comes from later than its clock. -/
structure Survey.IsTimely (survey : Survey) : Prop where
  grounded : survey.IsGrounded
  bindings : ∀ binding ∈ (survey.frame 0).bindings, binding.stamp ≤ (survey.frame 0).clock
  sites : ∀ site ∈ survey.sites, site.scope = 0 → site.stamp ≤ (survey.frame 0).clock

/-- The imports in the scope of the module are finished as well. -/
structure Survey.IsSettled (survey : Survey) : Prop extends survey.IsTimely where
  imports : ∀ binding ∈ (survey.frame 0).bindings, binding.clause.isSome = true →
    binding.stamp < (survey.frame 0).clock

/-- So many imports have been taken in, of these names. -/
structure Imports (names : List String) (count : Nat) (first second : Survey) : Prop where
  length : second.frames.length = first.frames.length
  region : ∀ scope, (second.frame scope).region = (first.frame scope).region
  parent : ∀ scope, (second.frame scope).parent = (first.frame scope).parent
  redirects : ∀ scope, (second.frame scope).redirects = (first.frame scope).redirects
  clock : ∀ scope, (second.frame scope).clock = (first.frame scope).clock + atModule scope count
  own : ∀ scope name, name ∉ names → second.own scope name = first.own scope name
  sites : second.sites = first.sites

namespace Imports

variable {names : List String} {count more : Nat} {first second third : Survey}

theorem refl (names : List String) (survey : Survey) : Imports names 0 survey survey :=
  ⟨rfl, fun _ => rfl, fun _ => rfl, fun _ => rfl, fun scope => by simp [atModule], fun _ _ _ => rfl, rfl⟩

theorem trans (head : Imports names count first second) (tail : Imports names more second third) :
    Imports names (count + more) first third where
  length := tail.length.trans head.length
  region scope := (tail.region scope).trans (head.region scope)
  parent scope := (tail.parent scope).trans (head.parent scope)
  redirects scope := (tail.redirects scope).trans (head.redirects scope)
  clock scope := by
    rw [tail.clock, head.clock]
    unfold atModule
    split <;> omega
  own scope name other := (tail.own scope name other).trans (head.own scope name other)
  sites := tail.sites.trans head.sites

theorem single {survey : Survey} (grounded : survey.IsGrounded) {name : String} (mem : name ∈ names)
    (clause : Option Clause) (origin : Option Address) :
    Imports names 1 survey ((survey.bind 0 name clause origin).tick 0) := by
  have occupied := (Survey.isGrounded_iff.1 grounded).1
  have target := Survey.targetOf_module grounded name (survey.frames.length + 1)
  -- Both changes are to the one scope.
  have frame (scope : Nat) : ((survey.bind 0 name clause origin).tick 0).frame scope =
      if scope = 0 then { survey.frame 0 with
        clock := (survey.frame 0).clock + 1
        bindings := (survey.frame 0).bindings ++ [⟨name, (survey.frame 0).clock, clause, origin⟩] }
      else survey.frame scope := by
    unfold Survey.tick Survey.bind
    rw [target, Survey.frame_updateFrame, Survey.frame_updateFrame, Survey.length_updateFrame]
    by_cases module : scope = 0
    next =>
      subst module
      simp [occupied]
    next => simp [module, Ne.symm module]
  constructor
  case length => simp [Survey.tick, Survey.bind]
  case region => intro scope; rw [frame]; split <;> simp [*]
  case parent => intro scope; rw [frame]; split <;> simp [*]
  case redirects => intro scope; rw [frame]; split <;> simp [*]
  case clock => intro scope; rw [frame]; unfold atModule; split <;> simp [*]
  case own =>
    intro scope wanted other
    have apart : name ≠ wanted := fun same => other (same ▸ mem)
    unfold Survey.own
    rw [frame]
    split
    next module => simp [module, apart]
    next => rfl
  case sites => rfl

theorem grounded (imports : Imports names count first second) (grounded : first.IsGrounded) :
    second.IsGrounded := by
  rw [Survey.isGrounded_iff] at grounded ⊢
  rw [imports.length, imports.redirects]
  exact grounded

end Imports

/-- Where everything is settled, imports can come in. -/
theorem Grown.imported {root : Node} {names : List String} {place : Address → Address} {count : Nat}
    {first second third : Survey} (grown : Grown root names place 0 0 first second)
    (settled : first.IsSettled) (imports : Imports names count second third) :
    Grown root names place (first.frame 0).clock count first third where
  length := imports.length.trans grown.length
  occupied := grown.occupied
  region scope := (imports.region scope).trans (grown.region scope)
  parent scope := (imports.parent scope).trans (grown.parent scope)
  redirects scope := (imports.redirects scope).trans (grown.redirects scope)
  clock scope := by
    rw [imports.clock, grown.clock]
    simp [atModule]
  reached := Nat.le_refl _
  own scope name other := by
    rw [imports.own scope name other]
    refine ((List.forall₂_and_left _ _).2 ⟨fun _ mem => mem, grown.own scope name other⟩).imp ?_
    rintro before after ⟨mem, delays⟩
    refine ⟨delays.clause, ?_⟩
    have same : after.stamp = before.stamp := by
      have stamp := delays.stamp
      simp only [Delayed, atModule, ite_self] at stamp
      omega
    by_cases module : scope = 0
    next =>
      subst module
      have among := (List.mem_filter.1 mem).1
      exact .inl ⟨same, settled.bindings before among, settled.imports before among⟩
    next => exact .inr ⟨by simp [same, atModule, module], by simp [atModule, module]⟩
  sites := by
    rw [imports.sites]
    refine ((List.forall₂_and_left _ _).2 ⟨fun _ mem => mem, grown.sites⟩).imp ?_
    rintro before after ⟨mem, delays⟩
    refine ⟨delays.isCall, delays.call, delays.scope, ?_⟩
    have same : after.stamp = before.stamp := by
      have stamp := delays.stamp
      simp only [Delayed, atModule, ite_self] at stamp
      omega
    by_cases module : before.scope = 0
    next => exact .inl ⟨same, by simpa [atModule, module] using settled.sites before mem module, False.elim⟩
    next => exact .inr ⟨by simp [same, atModule, module], by simp [atModule, module]⟩

theorem Grown.initial (root : Node) (names : List String) (place : Address → Address) :
    Grown root names place 0 0 .initial .initial where
  length := rfl
  occupied := by decide
  region _ := rfl
  parent _ := rfl
  redirects _ := rfl
  clock scope := by simp [atModule]
  reached := Nat.le_refl _
  own scope name _ := by
    have none : Survey.initial.own scope name = [] := by
      cases scope <;> rfl
    rw [none]
    exact .nil
  sites := .nil

end Graft.Scope
