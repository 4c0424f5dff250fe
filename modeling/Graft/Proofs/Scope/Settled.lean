import Graft.Proofs.Scope.Insertion
import Graft.Proofs.Scope.Silence

set_option autoImplicit false

/-!
Statements at the level of a module leave nothing behind: after each of them the imports that it has
made in the scope of the module are finished.
-/
namespace Graft.Scope

namespace Survey

/-- A change to one scope turns back no clock, and what it binds is stamped by the clock of the scope. -/
theorem isTimely_updateFrame {survey : Survey} (timely : survey.IsTimely) {scope : Nat} {change : Frame → Frame}
    (grounded : (survey.updateFrame scope change).IsGrounded)
    (clock : ∀ frame, frame.clock ≤ (change frame).clock)
    (bindings : ∀ frame, ∀ binding ∈ (change frame).bindings,
      binding ∈ frame.bindings ∨ binding.stamp = frame.clock) :
    (survey.updateFrame scope change).IsTimely := by
  refine ⟨grounded, ?_, fun site mem module => ?_⟩
  all_goals rw [frame_updateFrame]
  next =>
    split
    next =>
      refine fun binding mem => Nat.le_trans ?_ (clock _)
      obtain old | now := bindings _ binding mem
      next => exact timely.bindings binding old
      next => exact Nat.le_of_eq now
    next => exact timely.bindings
  next =>
    have before := timely.sites site mem module
    split
    next => exact Nat.le_trans before (clock _)
    next => exact before

/-- Nothing in the scope of the module is ever ahead of its clock. -/
theorem isTimely_kept (root : Node) : Kept root IsTimely where
  bind timely scope name clause origin made := by
    refine isTimely_updateFrame timely ((isGrounded_kept root).bind timely.grounded scope made)
      (fun _ => Nat.le_refl _) fun frame binding mem => ?_
    obtain old | new := List.mem_append.1 mem
    next => exact .inl old
    next => exact .inr (by rw [List.mem_singleton.1 new])
  tick timely scope :=
    isTimely_updateFrame timely ((isGrounded_kept root).tick timely.grounded scope)
      (fun _ => Nat.le_succ _) fun _ _ mem => .inl mem
  openScope {survey} timely region parent := by
    have fresh (none : 0 = survey.frames.length) : survey.frame 0 = ⟨.module, 0, 0, [], []⟩ := by
      unfold frame
      rw [List.length_eq_zero_iff.1 none.symm]
      rfl
    constructor
    case grounded => exact (isGrounded_kept root).openScope timely.grounded region parent
    case bindings =>
      rw [frame_openScope]
      split
      next => simp
      next => exact timely.bindings
    case sites =>
      rw [frame_openScope]
      split
      next none =>
        have sites := timely.sites
        rwa [fresh none] at sites
      next => exact timely.sites
  redirect timely scope inner name target :=
    isTimely_updateFrame timely ((isGrounded_kept root).redirect timely.grounded inner name target)
      (fun _ => Nat.le_refl _) fun _ _ mem => .inl mem
  record {survey} timely call scope := by
    refine ⟨timely.grounded, timely.bindings, fun site mem module => ?_⟩
    obtain rfl | old := List.mem_cons.1 mem
    next =>
      obtain rfl : scope = 0 := module
      exact Nat.le_refl _
    next => exact timely.sites site old module

/-- What finishes a construct in the scope of the module settles it. -/
theorem IsTimely.tick {survey : Survey} (timely : survey.IsTimely) : (survey.tick 0).IsSettled := by
  have occupied := (isGrounded_iff.1 timely.grounded).1
  refine { (isTimely_kept default).tick timely 0 with imports := ?_ }
  unfold Survey.tick
  rw [frame_updateFrame, if_pos ⟨rfl, occupied⟩]
  exact fun binding mem _ => Nat.lt_succ_of_le (timely.bindings binding mem)

theorem isSettled_updateFrame {survey : Survey} (settled : survey.IsSettled) {scope : Nat} {change : Frame → Frame}
    (timely : (survey.updateFrame scope change).IsTimely) (clock : ∀ frame, frame.clock ≤ (change frame).clock)
    (imports : ∀ frame, ∀ binding ∈ (change frame).bindings, binding.clause.isSome = true →
      binding ∈ frame.bindings) : (survey.updateFrame scope change).IsSettled := by
  refine { timely with imports := ?_ }
  rw [frame_updateFrame]
  split
  next =>
    intro binding mem imported
    exact Nat.lt_of_lt_of_le (settled.imports binding (imports _ binding mem imported) imported) (clock _)
  next => exact settled.imports

/-- Only imports unsettle the scope of the module. -/
theorem isSettled_keptWhere (root : Node) :
    KeptWhere root (fun _ clause => clause = none) IsSettled where
  bind settled scope _ _ _ plain made := by
    refine isSettled_updateFrame settled ((isTimely_kept root).bind settled.toIsTimely scope made)
      (fun _ => Nat.le_refl _) fun frame binding mem imported => ?_
    obtain old | new := List.mem_append.1 mem
    next => exact old
    next => exact absurd imported (by simp [List.mem_singleton.1 new, plain])
  tick settled scope :=
    isSettled_updateFrame settled ((isTimely_kept root).tick settled.toIsTimely scope)
      (fun _ => Nat.le_succ _) fun _ _ mem _ => mem
  openScope settled region parent := by
    refine { (isTimely_kept root).openScope settled.toIsTimely region parent with imports := ?_ }
    rw [frame_openScope]
    split
    next => simp
    next => exact settled.imports
  redirect settled scope inner name target :=
    isSettled_updateFrame settled ((isTimely_kept root).redirect settled.toIsTimely inner name target)
      (fun _ => Nat.le_refl _) fun _ _ mem _ => mem
  record settled call _ _ _ scope :=
    { (isTimely_kept root).record settled.toIsTimely call scope with imports := settled.imports }

end Survey

/-- Acts that take parts one after the other, in the scope of the node. -/
def Act.isLevel : Act → Bool
  | .nothing | .tick | .load _ | .store _ | .each => true
  | .andThen first second => first.isLevel && second.isLevel
  | _ => false

/-- Acts that end by finishing a construct. -/
def Act.finishes : Act → Bool
  | .tick => true
  | .andThen first second => second.finishes || first.finishes && second = .nothing
  | _ => false

theorem rule_of_isStatement {kind : Kind} (statement : kind.isStatement = true) (count : Nat) :
    (rule kind count).isLevel = true ∨
      (rule kind count).finishes = true ∧ (rule kind count).isPlain = true ∨
        kind = .importing ∨ kind = .importFrom ∨ kind = .globalNames ∨ kind = .outerNames := by
  unfold rule
  split <;> first | exact .inl rfl | exact .inr (.inl ⟨rfl, rfl⟩) |
    exact absurd statement (by decide) | simp

namespace Step

/-- A step after which imports are finished, in the scope of the module, if they were before. -/
abbrev Settles (address : Option Address) (step : Step) : Prop :=
  step.Establishes Survey.IsSettled Survey.IsSettled address

/-- A step that finishes all imports in the scope of the module. -/
abbrev Finishes (address : Option Address) (step : Step) : Prop :=
  step.Establishes Survey.IsTimely Survey.IsSettled address

variable {address : Option Address} {step next : Step}

theorem Settles.skip : Step.skip.Settles address := by
  intro context before after _ _ settled done
  obtain rfl := Except.ok.inj done
  exact settled

theorem Settles.andThen (head : step.Settles address) (tail : next.Settles address) :
    (step.andThen next).Settles address := by
  intro context before after stands module settled done
  obtain ⟨middle, ran, done⟩ := bind_eq_ok.1 done
  exact tail context middle after stands module (head context before middle stands module settled ran) done

theorem Settles.all {steps : List Step} (each : ∀ step ∈ steps, step.Settles address) :
    (Step.all steps).Settles address := by
  induction steps with
  | nil => exact .skip
  | cons step rest ih =>
    rw [Step.all_cons]
    exact (each step (by simp)).andThen (ih fun other mem => each other (by simp [mem]))

theorem finishes_tick : Step.tick.Finishes address := by
  intro context before after _ module timely done
  obtain rfl := Except.ok.inj done
  rw [module]
  exact timely.tick

end Step

section

variable {root node : Node} {address : Option Address} {read : List Char → Step} {parts : List Part}

theorem Act.run_settles (settles : ∀ part ∈ parts, part.step.Settles address) {act : Act}
    (level : act.isLevel = true) : (act.run read node parts).Settles address := by
  have part (index : Nat) : (partAt parts index).step.Settles address := by
    unfold partAt
    rw [List.getD_eq_getElem?_getD]
    cases found : parts[index]? with
    | none => exact .skip
    | some part => exact settles part (List.mem_of_getElem? found)
  induction act with
  | nothing => exact .skip
  | andThen first second ihFirst ihSecond =>
    rw [isLevel, Bool.and_eq_true] at level
    exact (ihFirst level.1).andThen (ihSecond level.2)
  | tick =>
    intro context before after _ _ settled done
    obtain rfl := Except.ok.inj done
    exact (Survey.isSettled_keptWhere node).tick settled context.scope
  | load index => exact fun context => part index (loading context)
  | store index => exact fun context => part index (storing context)
  | each =>
    refine .all fun step mem => ?_
    obtain ⟨part, among, rfl⟩ := List.mem_map.1 mem
    exact fun context => settles part among (loading context)
  | _ => exact absurd level (by simp [isLevel])

theorem Act.run_finishes (keeps : ∀ {act : Act}, act.isPlain = true →
      (act.run read node parts).Keeps Survey.IsTimely address)
    {act : Act} (plain : act.isPlain = true) (finishes : act.finishes = true) :
    (act.run read node parts).Finishes address := by
  induction act with
  | tick => exact Step.finishes_tick
  | andThen first second ihFirst ihSecond =>
    rw [isPlain, Bool.and_eq_true] at plain
    intro context before after stands module holds done
    obtain ⟨middle, ran, done⟩ := bind_eq_ok.1 done
    simp only [Act.finishes, Bool.or_eq_true, Bool.and_eq_true, decide_eq_true_eq] at finishes
    obtain last | ⟨last, rfl⟩ := finishes
    next =>
      exact ihSecond plain.2 last context middle after stands module
        (keeps plain.1 context before middle stands holds ran) done
    next =>
      obtain rfl := Except.ok.inj done
      exact ihFirst plain.1 last context before middle stands module holds ran
  | _ => exact absurd finishes (by simp [Act.finishes])

end

section

variable {root : Node} {read : List Char → Step}

theorem onImport_finishes {node : Node} {address : Option Address}
    (stands : ∀ found, address = some found → root.part? found = some node) :
    (onImport node).Finishes address := by
  cases said : node.clause? with
  | none =>
    unfold onImport
    rw [said]
    exact Step.finishes_tick
  | some clause =>
    rw [onImport_of_clause said, Step.all_append]
    intro context before after here module timely done
    obtain ⟨middle, ran, done⟩ := bind_eq_ok.1 done
    have binds : (Step.all (clause.boundNames.map fun name => Step.bind name (some clause))).Keeps
        Survey.IsTimely address := by
      refine Step.all_keeps fun step mem => ?_
      obtain ⟨name, bound, rfl⟩ := List.mem_map.1 mem
      exact Step.bind_keeps (Survey.isTimely_kept root) fun found place =>
        ⟨node, stands found place, said, fun _ is => Option.some.inj is ▸ bound⟩
    exact Step.finishes_tick context middle after here module (binds context before middle here timely ran) done

variable (hushed : ∀ text, Mirrored id (Itself Survey.IsSettled) none (read text) (read text))
  (keeps : ∀ text, (read text).Keeps Survey.IsTimely none)

include hushed

/-- What is no statement imports nothing. -/
theorem stepOf_settles_part {node : Node} (wellFormed : node.wellFormed = true)
    (expression : node.isStatement = false) {address : Option Address}
    (stands : ∀ found, address = some found → root.part? found = some node) :
    (stepOf read node).Settles address := by
  have speak (path : Address) (part : Node) (found : node.part? path = some part) :
      Speaks (fun _ clause => clause = none) part := by
    have none := clause?_of_not_isStatement (Node.isStatement_part? wellFormed expression found)
    exact ⟨rfl, fun _ _ _ _ => rfl, fun clause said => absurd said (by simp [none])⟩
  have kept := stepOf_keepsWhere (Survey.isSettled_keptWhere root) rfl node
    (fun _ _ _ _ _ => Step.keeps_iff.2 (hushed _)) stands speak
  exact fun context before after here _ settled done => kept context before after here settled done

include keeps

/-- Every statement at the level of a module leaves it settled. -/
theorem stepOf_settles {node : Node} (wellFormed : node.wellFormed = true) {address : Option Address}
    (stands : ∀ found, address = some found → root.part? found = some node) :
    (stepOf read node).Settles address := by
  induction node generalizing address with
  | leaf l => exact .skip
  | name parens id => exact stepOf_settles_part hushed wellFormed rfl stands
  | branch kind parens children ih =>
    cases statement : kind.isStatement with
    | false => exact stepOf_settles_part hushed wellFormed statement stands
    | true =>
      have each := ((Node.wellFormed_branch _ _ _).1 wellFormed).2
      have timely {step : Step} (finishes : step.Finishes address) : step.Settles address :=
        fun context before after here module settled done =>
          finishes context before after here module settled.toIsTimely done
      -- Compound statements are settled by their parts, the others finish what they bind, and a declaration of
      -- outside names is an error at the level of a module.
      obtain level | ⟨finishes, plain⟩ | rfl | rfl | rfl | rfl := rule_of_isStatement statement children.length
      next =>
        unfold stepOf
        refine Act.run_settles (fun part mem => ?_) level
        obtain ⟨i, child, here, rfl⟩ := mem_partsOf.1 mem
        have among := List.mem_of_getElem? here
        have settles := ih child among (each child among) (stands_child stands here)
        intro context before after at_ module settled done
        refine settles (Scope.child context (0 + i)) before after ?_ module settled done
        simp [Scope.child, at_]
      next =>
        unfold stepOf
        have unimporting : (Node.branch kind parens children).clause? = none :=
          clause?_of_kind (by rintro rfl; exact absurd finishes (by simp [rule, Act.finishes]))
            (by rintro rfl; exact absurd finishes (by simp [rule, Act.finishes])) parens children
        exact timely (Act.run_finishes (Act.run_keeps (Survey.isTimely_kept root) keeps stands unimporting)
          plain finishes)
      next => exact timely (onImport_finishes stands)
      next => exact timely (onImport_finishes stands)
      next =>
        refine timely fun context before after here module holds done => ?_
        change onGlobal (stepOf.partsOf read 0 children) context before = _ at done
        unfold onGlobal at done
        rw [if_pos module] at done
        exact Step.finishes_tick context before after here module holds done
      next =>
        intro context before after here module _ done
        change onNonlocal (stepOf.partsOf read 0 children) context before = _ at done
        unfold onNonlocal at done
        rw [if_pos module] at done
        exact absurd done (by simp)

end

end Graft.Scope
