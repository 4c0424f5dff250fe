import Graft.Proofs.Scope.Bindings

set_option autoImplicit false

/-!
How a survey grows. No clock goes back, bindings and declarations stay, and a call that is seen only
now has a stamp of now.
-/
namespace Graft.Scope

namespace Survey

structure Grows (first second : Survey) : Prop where
  length : first.frames.length ≤ second.frames.length
  clock : ∀ scope, (first.frame scope).clock ≤ (second.frame scope).clock
  bindings : ∀ scope, ∀ binding ∈ (first.frame scope).bindings, binding ∈ (second.frame scope).bindings
  undeclared : ∀ scope name, (second.frame scope).redirects.lookup name = none →
    (first.frame scope).redirects.lookup name = none
  sites : ∀ site ∈ second.sites, site ∈ first.sites ∨ (first.frame site.scope).clock ≤ site.stamp

namespace Grows

theorem refl (survey : Survey) : survey.Grows survey :=
  ⟨Nat.le_refl _, fun _ => Nat.le_refl _, fun _ _ mem => mem, fun _ _ none => none, fun _ mem => .inl mem⟩

theorem trans {first second third : Survey} (early : first.Grows second) (late : second.Grows third) :
    first.Grows third where
  length := Nat.le_trans early.length late.length
  clock scope := Nat.le_trans (early.clock scope) (late.clock scope)
  bindings scope binding mem := late.bindings scope binding (early.bindings scope binding mem)
  undeclared scope name none := early.undeclared scope name (late.undeclared scope name none)
  sites site mem := by
    obtain before | now := late.sites site mem
    next => exact early.sites site before
    next => exact .inr (Nat.le_trans (early.clock site.scope) now)

end Grows

variable (survey : Survey)

theorem grows_updateFrame (scope : Nat) {change : Frame → Frame}
    (clock : ∀ frame, frame.clock ≤ (change frame).clock)
    (bindings : ∀ frame, ∀ binding ∈ frame.bindings, binding ∈ (change frame).bindings)
    (undeclared : ∀ frame name, (change frame).redirects.lookup name = none →
      frame.redirects.lookup name = none) : survey.Grows (survey.updateFrame scope change) where
  length := by simp
  clock other := by
    rw [frame_updateFrame]
    split
    next => exact clock _
    next => exact Nat.le_refl _
  bindings other binding mem := by
    rw [frame_updateFrame]
    split
    next => exact bindings _ binding mem
    next => exact mem
  undeclared other name := by
    rw [frame_updateFrame]
    split
    next => exact undeclared _ name
    next => exact id
  sites _ mem := .inl mem

theorem grows_bind (scope : Nat) (name : String) (clause : Option Clause) (origin : Option Address) :
    survey.Grows (survey.bind scope name clause origin) :=
  survey.grows_updateFrame _ (fun _ => Nat.le_refl _) (fun _ _ mem => List.mem_append_left _ mem)
    fun _ _ none => none

theorem grows_tick (scope : Nat) : survey.Grows (survey.tick scope) :=
  survey.grows_updateFrame _ (fun _ => Nat.le_succ _) (fun _ _ mem => mem) fun _ _ none => none

theorem grows_redirect (scope : Nat) (name : String) (target : Nat) :
    survey.Grows (survey.redirect scope name target) := by
  refine survey.grows_updateFrame _ (fun _ => Nat.le_refl _) (fun _ _ mem => mem) fun frame other none => ?_
  rw [List.lookup_cons] at none
  split at none
  next => exact absurd none (by simp)
  next => exact none

theorem grows_openScope (region : Region) (parent : Nat) :
    survey.Grows (survey.openScope region parent).2 := by
  have outside : survey.frame survey.frames.length = ⟨.module, 0, 0, [], []⟩ := by
    simp [Survey.frame]
  refine ⟨by simp [openScope], fun scope => ?_, fun scope binding mem => ?_, fun scope name => ?_,
    fun _ mem => .inl mem⟩
  all_goals rw [frame_openScope]
  next =>
    split
    next last => simp [last, outside]
    next => exact Nat.le_refl _
  next =>
    split
    next last => rw [last, outside] at mem; exact absurd mem (by simp)
    next => exact mem
  next =>
    split
    next last => rw [last, outside]; exact fun _ => rfl
    next => exact id

theorem grows_record (call : Address) (scope : Nat) : survey.Grows (survey.record call scope) where
  length := Nat.le_refl _
  clock _ := Nat.le_refl _
  bindings _ _ mem := mem
  undeclared _ _ none := none
  sites site mem := by
    obtain rfl | before := List.mem_cons.1 mem
    next => exact .inr (Nat.le_refl _)
    next => exact .inl before

theorem grows_kept (root : Node) : Kept root survey.Grows where
  bind grows scope _ _ _ _ := grows.trans (grows_bind _ scope _ _ _)
  tick grows scope := grows.trans (grows_tick _ scope)
  openScope grows region parent := grows.trans (grows_openScope _ region parent)
  redirect grows _ _ name target := grows.trans (grows_redirect _ _ name target)
  record grows call scope := grows.trans (grows_record _ call scope)

end Survey

theorem stepOf_grows {root node : Node} {fuel : Nat} {context : Context} {before after : Survey}
    (stands : ∀ found, context.address = some found → root.part? found = some node)
    (done : stepOf (readText fuel) node context before = .ok after) : before.Grows after :=
  stepOf_keeps (before.grows_kept root) (readText_keeps (before.grows_kept root) fuel) node stands
    context before after rfl (.refl before) done

end Graft.Scope
