import Graft.Proofs.Scope.Mirror
import Graft.Registry

set_option autoImplicit false

/-!
Surveys without addresses. All that a registry asks of the statement that makes a binding is whether it is
among the imports that the module begins with; where statements stand is of no account.
-/
namespace Graft.Scope

/-- A binding whose statement is forgotten, but for a mark. -/
def Binding.blur (marked : Address → Bool) (binding : Binding) : Binding :=
  { binding with origin := if binding.origin.any marked then some [] else none }

def Frame.blur (marked : Address → Bool) (frame : Frame) : Frame :=
  { frame with bindings := frame.bindings.map (Binding.blur marked) }

namespace Survey

def blur (marked : Address → Bool) (survey : Survey) : Survey :=
  ⟨survey.frames.map (Frame.blur marked), []⟩

variable (marked : Address → Bool) (survey : Survey)

@[simp] theorem frame_blur (scope : Nat) : (survey.blur marked).frame scope = (survey.frame scope).blur marked := by
  simp only [frame, blur, List.getD_eq_getElem?_getD, List.getElem?_map]
  cases survey.frames[scope]? <;> rfl

@[simp] theorem length_frames_blur : (survey.blur marked).frames.length = survey.frames.length := by
  simp [blur]

@[simp] theorem hides_blur (scope reader : Nat) : (survey.blur marked).hides scope reader = survey.hides scope reader := by
  simp [hides, Frame.blur]

theorem own_blur (frame : Frame) (name : String) :
    ((frame.blur marked).bindings.filter fun binding => binding.name == name) =
      (frame.bindings.filter fun binding => binding.name == name).map (Binding.blur marked) := by
  rw [Frame.blur, List.filter_map]
  rfl

theorem resolveFrom_blur (name : String) (reader fuel scope : Nat) :
    (survey.blur marked).resolveFrom name reader fuel scope =
      ((survey.resolveFrom name reader fuel scope).1,
        (survey.resolveFrom name reader fuel scope).2.map (Binding.blur marked)) := by
  induction fuel generalizing scope with
  | zero => rfl
  | succ fuel ih =>
    simp only [resolveFrom, hides_blur, frame_blur, own_blur, List.isEmpty_map]
    split
    next => exact ih _
    next =>
      simp only [Frame.blur]
      split
      next => exact ih _
      next =>
        split
        next => exact ih _
        next => rfl

theorem resolve_blur (name : String) (scope : Nat) : (survey.blur marked).resolve name scope =
    ((survey.resolve name scope).1, (survey.resolve name scope).2.map (Binding.blur marked)) := by
  simp only [resolve, length_frames_blur, resolveFrom_blur]

@[simp] theorem knows_blur (name : String) (scope : Nat) :
    (survey.blur marked).knows name scope = survey.knows name scope := by
  simp [knows, resolve_blur]

theorem importedAt_blur (context : Context) (text : String) :
    importedAt (survey.blur marked) context text = importedAt survey context text := by
  simp only [importedAt, looseReferents, knows_blur]
  cases (prefixes text).find? fun part => survey.knows part context.scope with
  | none => rfl
  | some part =>
    simp only [resolve_blur, List.flatMap_map]
    rfl

theorem outward_blur (fuel scope : Nat) :
    targetOf.outward (survey.blur marked) fuel scope = targetOf.outward survey fuel scope := by
  induction fuel generalizing scope with
  | zero => rfl
  | succ fuel ih => simp [targetOf.outward, Frame.blur, ih]

theorem targetOf_blur (name : String) (fuel scope : Nat) :
    (survey.blur marked).targetOf name fuel scope = survey.targetOf name fuel scope := by
  induction fuel generalizing scope with
  | zero => rfl
  | succ fuel ih =>
    simp only [targetOf, frame_blur, Frame.blur, outward_blur]
    split
    next => exact ih _
    next => rfl

variable {survey}

theorem updateFrame_blur {change image : Frame → Frame}
    (alike : ∀ frame, (change frame).blur marked = image (frame.blur marked)) (scope : Nat) :
    (survey.updateFrame scope change).blur marked = (survey.blur marked).updateFrame scope image := by
  simp only [blur, updateFrame, mk.injEq, and_true]
  refine List.ext_getElem? fun i => ?_
  simp only [List.getElem?_map, List.getElem?_modify]
  cases survey.frames[i]? with
  | none => rfl
  | some frame =>
    by_cases here : scope = i
    · simp [here, alike]
    · simp [here]

theorem bind_blur (scope : Nat) (name : String) (clause : Option Clause) (origin : Option Address) :
    (survey.bind scope name clause origin).blur marked =
      (survey.blur marked).bind scope name clause (if origin.any marked then some [] else none) := by
  simp only [bind, targetOf_blur, length_frames_blur]
  refine updateFrame_blur marked (fun frame => ?_) _
  simp [Frame.blur, Binding.blur]

theorem tick_blur (scope : Nat) : (survey.tick scope).blur marked = (survey.blur marked).tick scope := by
  refine updateFrame_blur marked (fun frame => ?_) scope
  rfl

theorem redirect_blur (scope : Nat) (name : String) (target : Nat) :
    (survey.redirect scope name target).blur marked = (survey.blur marked).redirect scope name target := by
  refine updateFrame_blur marked (fun frame => ?_) scope
  rfl

theorem openScope_blur (region : Region) (parent : Nat) :
    (survey.openScope region parent).2.blur marked = ((survey.blur marked).openScope region parent).2 := by
  simp [blur, openScope, Frame.blur]

end Survey

/-- Surveys with the same blurs, each with marks of its own. -/
def Blurred (marked other : Address → Bool) (first second : Survey) : Prop :=
  second.blur other = first.blur marked

variable {marked other : Address → Bool} {place : Address → Address}

/-- Steps that mirror each other keep the blurs of surveys the same, if the marks go along with the
addresses. -/
theorem Blurred.mirror {root : Node}
    (marks : ∀ address node, root.part? address = some node → other (place address) = marked address) :
    Mirror root (fun _ _ => True) place (Blurred marked other) where
  parent related scope := by
    have frames := congrArg (fun survey : Survey => (survey.frame scope).parent) related
    simpa [Frame.blur] using frames
  length related := by
    have frames := congrArg (fun survey : Survey => survey.frames.length) related
    simpa using frames
  imported {first second} related context text _ := by
    rw [← Survey.importedAt_blur other, ← Survey.importedAt_blur marked first, related]
  bind {first second} related scope name clause origin _ made := by
    have mark : (origin.map place).any other = origin.any marked := by
      cases origin with
      | none => rfl
      | some address =>
        obtain ⟨node, stands, -⟩ := made address rfl
        exact marks address node stands
    rw [Blurred, Survey.bind_blur, Survey.bind_blur, mark, related]
  tick related scope := by rw [Blurred, Survey.tick_blur, Survey.tick_blur, related]
  openScope related region parent := by
    rw [Blurred, Survey.openScope_blur, Survey.openScope_blur, related]
  redirect related _ _ name target := by
    rw [Blurred, Survey.redirect_blur, Survey.redirect_blur, related]
  record related _ _ _ _ _ := related

theorem bindingsOf_blur (marked : Address → Bool) (survey : Survey) (name : String) :
    (survey.blur marked).bindingsOf name = (survey.bindingsOf name).map (Binding.blur marked) := by
  simp only [Survey.bindingsOf, Survey.blur, List.flatMap_map, Survey.own_blur, List.map_flatMap]

/-- Whether a name is rebound is seen in the blur of a survey. -/
theorem isRebound_eq (survey : Survey) (leading : List Address) (name : String) :
    Registry.isRebound survey leading name =
      ((survey.blur leading.contains).bindingsOf name).any fun binding => binding.origin.isNone := by
  rw [Registry.isRebound, bindingsOf_blur, List.any_map]
  refine congrArg (List.any _) (funext fun binding => ?_)
  simp only [Function.comp_apply, Binding.blur]
  cases binding.origin.any leading.contains <;> rfl

theorem Blurred.isRebound {leading again : List Address} {first second : Survey}
    (alike : Blurred leading.contains again.contains first second) (name : String) :
    Registry.isRebound second again name = Registry.isRebound first leading name := by
  rw [isRebound_eq, isRebound_eq, alike]

end Graft.Scope
