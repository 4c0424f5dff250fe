import Graft.Proofs.Scope.Kept
import Graft.Proofs.Tree.Import

set_option autoImplicit false

/-!
The bindings of a survey. None is lost, each stands where the statement that makes it does, and the
imports that stand in the module itself make theirs.
-/
namespace Graft.Scope

/-- Some scope has the binding. -/
def Survey.Binds (survey : Survey) (binding : Binding) : Prop :=
  ∃ frame ∈ survey.frames, binding ∈ frame.bindings

namespace Survey

theorem mem_bindingsOf {survey : Survey} {name : String} {binding : Binding} :
    binding ∈ survey.bindingsOf name ↔ survey.Binds binding ∧ binding.name = name := by
  simp only [bindingsOf, List.mem_flatMap, List.mem_filter, Binds, beq_iff_eq]
  constructor
  next =>
    rintro ⟨frame, mem, among, named⟩
    exact ⟨⟨frame, mem, among⟩, named⟩
  next =>
    rintro ⟨⟨frame, mem, among⟩, named⟩
    exact ⟨frame, mem, among, named⟩

theorem mem_bindingsOf_of_resolve {survey : Survey} {name : String} {scope : Nat} {binding : Binding}
    (mem : binding ∈ (survey.resolve name scope).2) : binding ∈ survey.bindingsOf name := by
  unfold resolve at mem
  generalize survey.frames.length + 1 = fuel at mem
  generalize scope = reader at mem
  -- The search goes outward, with the scope of the reader fixed.
  have found (fuel scope : Nat) (mem : binding ∈ (survey.resolveFrom name reader fuel scope).2) :
      binding ∈ survey.bindingsOf name := by
    induction fuel generalizing scope with
    | zero => exact absurd mem (by simp [resolveFrom])
    | succ fuel ih =>
      unfold resolveFrom at mem
      dsimp only at mem
      split at mem
      next => exact ih _ mem
      next =>
        split at mem
        next => exact ih _ mem
        next =>
          split at mem
          next => exact ih _ mem
          next =>
            obtain ⟨among, named⟩ := List.mem_filter.1 mem
            unfold Survey.frame at among
            rw [List.getD_eq_getElem?_getD] at among
            cases here : survey.frames[scope]? with
            | none => rw [here] at among; exact absurd among (by simp)
            | some frame =>
              rw [here] at among
              exact mem_bindingsOf.2 ⟨⟨frame, List.mem_of_getElem? here, among⟩, by simpa using named⟩
  exact found _ _ mem

theorem frames_updateFrame (survey : Survey) (scope : Nat) (change : Frame → Frame) (i : Nat) :
    (survey.updateFrame scope change).frames[i]? =
      (survey.frames[i]?).map fun frame => if scope = i then change frame else frame := by
  simp only [updateFrame, List.getElem?_modify]
  split <;> simp

theorem frame_updateFrame (survey : Survey) (scope : Nat) (change : Frame → Frame) (i : Nat) :
    (survey.updateFrame scope change).frame i =
      if scope = i ∧ i < survey.frames.length then change (survey.frame i) else survey.frame i := by
  unfold frame
  rw [List.getD_eq_getElem?_getD, List.getD_eq_getElem?_getD, frames_updateFrame]
  by_cases inside : i < survey.frames.length
  next =>
    rw [List.getElem?_eq_getElem inside]
    by_cases same : scope = i <;> simp [same, inside]
  next => simp [inside]

@[simp] theorem length_updateFrame (survey : Survey) (scope : Nat) (change : Frame → Frame) :
    (survey.updateFrame scope change).frames.length = survey.frames.length := by
  simp [updateFrame]

theorem frame_openScope (survey : Survey) (region : Region) (parent i : Nat) :
    (survey.openScope region parent).2.frame i =
      if i = survey.frames.length then ⟨region, parent, 0, [], []⟩ else survey.frame i := by
  unfold openScope frame
  simp only [List.getD_eq_getElem?_getD]
  by_cases inside : i < survey.frames.length
  next => rw [List.getElem?_append_left inside, if_neg (by omega)]
  next =>
    rw [List.getElem?_append_right (by omega)]
    by_cases last : i = survey.frames.length
    next => simp [last]
    next =>
      rw [if_neg last, List.getElem?_eq_none (by simp; omega),
        List.getElem?_eq_none (Nat.le_of_not_lt inside)]

theorem binds_updateFrame {survey : Survey} {scope : Nat} {change : Frame → Frame} {binding : Binding}
    (binds : (survey.updateFrame scope change).Binds binding) :
    survey.Binds binding ∨ ∃ frame ∈ survey.frames, binding ∈ (change frame).bindings := by
  obtain ⟨frame, mem, among⟩ := binds
  obtain ⟨i, found⟩ := List.getElem?_of_mem mem
  rw [frames_updateFrame, Option.map_eq_some_iff] at found
  obtain ⟨before, found, rfl⟩ := found
  have mem := List.mem_of_getElem? found
  split at among
  next => exact .inr ⟨before, mem, among⟩
  next => exact .inl ⟨before, mem, among⟩

theorem binds_of_binds {survey : Survey} {scope : Nat} {change : Frame → Frame} {binding : Binding}
    (grows : ∀ frame, binding ∈ frame.bindings → binding ∈ (change frame).bindings)
    (binds : survey.Binds binding) : (survey.updateFrame scope change).Binds binding := by
  obtain ⟨frame, mem, among⟩ := binds
  obtain ⟨i, found⟩ := List.getElem?_of_mem mem
  have after := survey.frames_updateFrame scope change i
  rw [found, Option.map_some] at after
  refine ⟨_, List.mem_of_getElem? after, ?_⟩
  split
  next => exact grows frame among
  next => exact among

theorem binds_bind {survey : Survey} {scope : Nat} {name : String} {clause : Option Clause}
    {origin : Option Address} {binding : Binding} (binds : (survey.bind scope name clause origin).Binds binding) :
    survey.Binds binding ∨ binding.name = name ∧ binding.clause = clause ∧ binding.origin = origin := by
  obtain old | ⟨frame, mem, among⟩ := binds_updateFrame binds
  next => exact .inl old
  next =>
    obtain among | among := List.mem_append.1 among
    next => exact .inl ⟨frame, mem, among⟩
    next =>
      obtain rfl := List.mem_singleton.1 among
      exact .inr ⟨rfl, rfl, rfl⟩

theorem binds_openScope {survey : Survey} {region : Region} {parent : Nat} {binding : Binding} :
    (survey.openScope region parent).2.Binds binding ↔ survey.Binds binding := by
  simp [Binds, openScope, or_and_right, exists_or]

theorem binds_tick {survey : Survey} {scope : Nat} {binding : Binding}
    (binds : (survey.tick scope).Binds binding) : survey.Binds binding :=
  (binds_updateFrame binds).elim id id

theorem binds_redirect {survey : Survey} {scope target : Nat} {name : String} {binding : Binding}
    (binds : (survey.redirect scope name target).Binds binding) : survey.Binds binding :=
  (binds_updateFrame binds).elim id id

theorem exists_kept (root : Node) (Shows : Binding → Prop) :
    Kept root fun survey => ∃ binding, survey.Binds binding ∧ Shows binding where
  bind := by
    rintro _ ⟨binding, binds, shows_⟩ _ _ _ _ _
    exact ⟨binding, binds_of_binds (fun _ among => List.mem_append_left _ among) binds, shows_⟩
  tick := by
    rintro _ ⟨binding, binds, shows_⟩ _
    exact ⟨binding, binds_of_binds (fun _ among => among) binds, shows_⟩
  openScope := by
    rintro _ ⟨binding, binds, shows_⟩ _ _
    exact ⟨binding, binds_openScope.2 binds, shows_⟩
  redirect := by
    rintro _ ⟨binding, binds, shows_⟩ _ _ _ _
    exact ⟨binding, binds_of_binds (fun _ among => among) binds, shows_⟩
  record held _ _ := held

/-- Every binding stands where the statement that makes it does. -/
theorem made_kept (root : Node) : Kept root fun survey =>
    ∀ binding, survey.Binds binding → Made root binding.name binding.clause binding.origin where
  bind each _ _ _ _ made binding binds := by
    obtain old | ⟨rfl, rfl, rfl⟩ := binds_bind binds
    next => exact each binding old
    next => exact made
  tick each _ binding binds := each binding (binds_tick binds)
  openScope each _ _ binding binds := each binding (binds_openScope.1 binds)
  redirect each _ _ _ _ binding binds := each binding (binds_redirect binds)
  record each _ _ := each

theorem allowed_keptWhere (root : Node) (Allowed : String → Option Clause → Prop) :
    KeptWhere root Allowed fun survey =>
      ∀ binding, survey.Binds binding → Allowed binding.name binding.clause where
  bind each _ _ _ _ allowed _ binding binds := by
    obtain old | ⟨rfl, rfl, rfl⟩ := binds_bind binds
    next => exact each binding old
    next => exact allowed
  tick each _ binding binds := each binding (binds_tick binds)
  openScope each _ _ binding binds := each binding (binds_openScope.1 binds)
  redirect each _ _ _ _ binding binds := each binding (binds_redirect binds)
  record each _ _ _ _ _ := each

theorem not_binds_initial {binding : Binding} : ¬ initial.Binds binding := by
  rintro ⟨frame, mem, among⟩
  obtain rfl := List.mem_singleton.1 mem
  exact absurd among (by simp)

theorem made_of_survey {module : Module} {survey : Survey} (surveyed : Scope.survey module = .ok survey)
    {binding : Binding} (binds : survey.Binds binding) :
    Made module.root binding.name binding.clause binding.origin := by
  exact survey_holds (made_kept module.root) (fun _ none => absurd none not_binds_initial) surveyed binding binds

/-- The scope of the module is there, and names in it are its own. -/
def IsGrounded (survey : Survey) : Prop := ∃ frame, survey.frames[0]? = some frame ∧ frame.redirects = []

theorem isGrounded_updateFrame {survey : Survey} {scope : Nat} {change : Frame → Frame}
    (kept : scope = 0 → ∀ frame, (change frame).redirects = frame.redirects) (grounded : survey.IsGrounded) :
    (survey.updateFrame scope change).IsGrounded := by
  obtain ⟨frame, found, none⟩ := grounded
  refine ⟨_, by rw [frames_updateFrame, found, Option.map_some], ?_⟩
  split
  next here => rw [kept here, none]
  next => exact none

theorem isGrounded_kept (root : Node) : Kept root IsGrounded where
  bind grounded _ _ _ _ _ := isGrounded_updateFrame (fun _ _ => rfl) grounded
  tick grounded _ := isGrounded_updateFrame (fun _ _ => rfl) grounded
  openScope := by
    rintro survey ⟨frame, found, none⟩ region parent
    exact ⟨frame, by rw [openScope, List.getElem?_append_left (List.getElem?_eq_some_iff.1 found).1, found], none⟩
  redirect grounded _ inner _ _ := isGrounded_updateFrame (fun here => absurd here inner) grounded
  record grounded _ _ := grounded

theorem targetOf_module {survey : Survey} (grounded : survey.IsGrounded) (name : String) (fuel : Nat) :
    survey.targetOf name fuel 0 = 0 := by
  obtain ⟨frame, found, none⟩ := grounded
  cases fuel with
  | zero => rfl
  | succ fuel => simp [targetOf, Survey.frame, found, none]

theorem binds_of_bind {survey : Survey} (grounded : survey.IsGrounded) (name : String)
    (clause : Option Clause) (origin : Option Address) :
    ∃ binding, (survey.bind 0 name clause origin).Binds binding ∧ binding.name = name ∧
      binding.origin = origin := by
  have target := targetOf_module grounded name (survey.frames.length + 1)
  obtain ⟨frame, found, -⟩ := grounded
  have bound : (survey.bind 0 name clause origin).frames[0]? =
      some { frame with bindings := frame.bindings ++ [⟨name, frame.clock, clause, origin⟩] } := by
    simp only [bind, target, frames_updateFrame, found, Option.map_some, if_pos]
  exact ⟨_, ⟨_, List.mem_of_getElem? bound, List.mem_append_right _ List.mem_cons_self⟩, rfl, rfl⟩

end Survey

/-- A step that brings about a property in the scope of the module, where another one holds. -/
def Step.Establishes (Before After : Survey → Prop) (address : Option Address) (step : Step) : Prop :=
  ∀ context before after, context.address = address → context.scope = 0 → Before before →
    step context before = .ok after → After after

section

variable {Before After : Survey → Prop} {address : Option Address}

theorem Step.all_keeps {Holds : Survey → Prop} {steps : List Step}
    (keeps : ∀ step ∈ steps, step.Keeps Holds address) : (Step.all steps).Keeps Holds address := by
  rw [Step.keeps_iff]
  exact .all fun step mem => Step.keeps_iff.1 (keeps step mem)

theorem Step.all_establishes {steps : List Step} (before : ∀ step ∈ steps, step.Keeps Before address)
    (after : ∀ step ∈ steps, step.Keeps After address) {step : Step} (mem : step ∈ steps)
    (establishes : step.Establishes Before After address) :
    (Step.all steps).Establishes Before After address := by
  intro context survey reached stands scope holds done
  induction steps generalizing survey with
  | nil => exact absurd mem (by simp)
  | cons first rest ih =>
    rw [Step.all_cons] at done
    obtain ⟨between, ran, ended⟩ := bind_eq_ok.1 done
    have after' : ∀ other ∈ rest, other.Keeps After address := fun other mem => after other (by simp [mem])
    obtain rfl | later := List.mem_cons.1 mem
    next =>
      exact Step.all_keeps after' context between reached stands
        (establishes context survey between stands scope holds ran) ended
    next =>
      exact ih (fun other mem => before other (by simp [mem])) after' later between
        (before first (by simp) context survey between stands holds ran) ended

end

theorem rule_of_isBundle {kind : Kind} (bundle : kind.isBundle = true) (count : Nat) :
    rule kind count = .each := by
  cases kind <;> first | rfl | exact absurd bundle (by decide)

section

variable {root : Node} {Before After : Survey → Prop} (before : Kept root Before)
  (after : Kept root After) {read : List Char → Step} (readsBefore : ∀ text, (read text).Keeps Before none)
  (readsAfter : ∀ text, (read text).Keeps After none)

include before after readsBefore readsAfter

theorem stepOf_establishes_part {address : Address} {kind : Kind} {parens : Parens}
    {children : List Node} (bundle : kind.isBundle = true)
    (stands : root.part? address = some (.branch kind parens children)) {i : Nat} {node : Node}
    (here : children[i]? = some node)
    (establishes : (stepOf read node).Establishes Before After (some (address ++ [i]))) :
    (stepOf read (.branch kind parens children)).Establishes Before After (some address) := by
  have keeps {Holds : Survey → Prop} (kept : Kept root Holds) (reads : ∀ text, (read text).Keeps Holds none) :
      ∀ step ∈ (stepOf.partsOf read 0 children).map load, step.Keeps Holds (some address) := by
    intro step mem
    obtain ⟨part, among, rfl⟩ := List.mem_map.1 mem
    obtain ⟨j, child, found, rfl⟩ := mem_partsOf.1 among
    intro context first last at_ holds done
    refine stepOf_keeps kept reads child ?_ (Scope.child (loading context) (0 + j)) first last rfl holds done
    intro place below
    simp only [Scope.child, loading, at_, Option.map_some, Nat.zero_add, Option.some.injEq] at below
    rw [← below, Node.part?_concat, stands, Option.bind_some, Node.children_branch, found]
  unfold stepOf
  rw [rule_of_isBundle bundle]
  refine Step.all_establishes (keeps before readsBefore) (keeps after readsAfter)
    (List.mem_map_of_mem (mem_partsOf.2 ⟨i, node, here, rfl⟩)) ?_
  intro context first last at_ scope holds done
  refine establishes (Scope.child (loading context) (0 + i)) first last ?_ scope holds done
  simp [child, loading, at_]

theorem stepOf_establishes {address path : Address} {node target : Node}
    (stands : root.part? address = some node) (bundled : node.Bundled path)
    (found : node.part? path = some target)
    (establishes : (stepOf read target).Establishes Before After (some (address ++ path))) :
    (stepOf read node).Establishes Before After (some address) := by
  induction path generalizing address node with
  | nil =>
    obtain rfl := Option.some.inj found
    rwa [List.append_nil] at establishes
  | cons i rest ih =>
    obtain ⟨⟨kind, bundle, is⟩, child, here, bundled⟩ := bundled
    obtain ⟨parens, children, rfl⟩ := Node.exists_branch is
    rw [Node.part?_cons, here, Option.bind_some] at found
    refine stepOf_establishes_part before after readsBefore readsAfter bundle stands here
      (ih ?_ bundled found (by simpa using establishes))
    rw [Node.part?_concat, stands, Option.bind_some, here]

end

section

variable {root node : Node} {address : Option Address}

theorem Step.bind_keeps {Holds : Survey → Prop} (kept : Kept root Holds) {name : String}
    {clause : Option Clause} (made : Made root name clause address) :
    (Step.bind name clause).Keeps Holds address :=
  Step.keeps_iff.2 (.bind kept.mirror trivial made)

theorem Step.bind_establishes (name : String) (clause : Option Clause) :
    (Step.bind name clause).Establishes Survey.IsGrounded
      (fun survey => ∃ binding, survey.Binds binding ∧ binding.name = name ∧ binding.origin = address)
      address := by
  intro context before after stands scope grounded done
  obtain rfl := Except.ok.inj done
  rw [scope, stands]
  exact Survey.binds_of_bind grounded name clause address

theorem onImport_establishes (stands : ∀ found, address = some found → root.part? found = some node)
    {clause : Clause} (said : node.clause? = some clause) {name : String}
    (bound : name ∈ clause.boundNames) :
    (onImport node).Establishes Survey.IsGrounded
      (fun survey => ∃ binding, survey.Binds binding ∧ binding.name = name ∧ binding.origin = address)
      address := by
  have keeps {Holds : Survey → Prop} (kept : Kept root Holds) :
      ∀ step ∈ clause.boundNames.map (fun name => Step.bind name (some clause)) ++ [Step.tick],
        step.Keeps Holds address := by
    intro step mem
    obtain among | among := List.mem_append.1 mem
    next =>
      obtain ⟨part, spelled, rfl⟩ := List.mem_map.1 among
      exact Step.bind_keeps kept fun found place =>
        ⟨node, stands found place, said, fun _ is => Option.some.inj is ▸ spelled⟩
    next =>
      obtain rfl := List.mem_singleton.1 among
      exact Step.keeps_iff.2 (.tick kept.mirror)
  rw [onImport_of_clause said]
  exact Step.all_establishes (keeps (Survey.isGrounded_kept root))
    (keeps (Survey.exists_kept root fun binding => binding.name = name ∧ binding.origin = address))
    (List.mem_append_left _ (List.mem_map_of_mem bound)) (Step.bind_establishes name (some clause))

end

/-- The names of a leading import are bound where it stands. -/
theorem binds_of_mem_leadingImports {module : Module} {survey : Survey}
    (surveyed : Scope.survey module = .ok survey) {located : Located}
    (mem : located ∈ module.leadingImports) {clause : Clause} (said : located.2.clause? = some clause)
    {name : String} (bound : name ∈ clause.boundNames) :
    ∃ binding, survey.Binds binding ∧ binding.name = name ∧ binding.origin = some located.1 := by
  obtain ⟨found, bundled, imports⟩ := Module.part?_of_mem_leadingImports mem
  have grounded := Survey.isGrounded_kept module.root
  have held := Survey.exists_kept module.root fun binding =>
    binding.name = name ∧ binding.origin = some located.1
  have here : ∀ place, some located.1 = some place → module.root.part? place = some located.2 :=
    fun place same => Option.some.inj same ▸ found
  have step := onImport_establishes here said bound
  have whole (fuel : Nat) : (stepOf (readText fuel) module.root).Establishes Survey.IsGrounded
      (fun survey => ∃ binding, survey.Binds binding ∧ binding.name = name ∧
        binding.origin = some located.1) (some []) := by
    refine stepOf_establishes grounded held (readText_keeps grounded fuel) (readText_keeps held fuel)
      rfl bundled found ?_
    obtain ⟨parens, children, shape⟩ := Node.exists_branch imports
    rw [List.nil_append, shape]
    rw [shape] at step
    exact step
  exact whole _ _ _ _ rfl rfl ⟨_, rfl, rfl⟩ surveyed

end Graft.Scope
