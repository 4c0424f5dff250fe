import Graft.Proofs.Scope.Kept

set_option autoImplicit false

/-!
Hints that say nothing to a survey: they bind no name, open no scope and finish no construct. A module
with only such hints is surveyed as if its strings were not read at all.
-/
namespace Graft

namespace Scope

/-- Acts that only pass on what the parts do. -/
def Act.isSilent : Act → Bool
  | .nothing | .load _ | .store _ | .each | .alike | .hints => true
  | .call | .arguments | .subscript | .string | .strings => true
  | .andThen first second => first.isSilent && second.isSilent
  | _ => false

/-- The text of a string is silent, if it has one. -/
def isSilentValue (spoken : List Char → Bool) : Except Fault (Option Literal.Value) → Bool
  | .ok (some value) => (literalText value).isEmpty || spoken (literalText value)
  | .ok none => true
  | .error _ => false

/-- What is written in a hint binds nothing; `spoken` says that of the texts of its own strings. -/
def isSilentNode (spoken : List Char → Bool) : Node → Bool
  | .leaf _ => true
  | .name _ _ => true
  | .branch kind parens children =>
    (rule kind children.length).isSilent &&
      isSilentValue spoken (valueOf? (.branch kind parens children)) && areSilent spoken children
where
  areSilent (spoken : List Char → Bool) : List Node → Bool
    | [] => true
    | node :: rest => isSilentNode spoken node && areSilent spoken rest

/-- A text that is no module is silent, as are most types: only lambdas, comprehensions, assignments
and definitions are not. -/
def isSilentText : Nat → List Char → Bool
  | 0, _ => false
  | fuel + 1, text =>
    match Module.read (String.ofList text) with
    | .ok module => isSilentNode (isSilentText fuel) module.root
    | .error .unparsable => true
    | .error _ => false

/-- Reads only silent texts. -/
def onlySilent (text : List Char) : Step := fun _ survey =>
  if isSilentText (text.length + 1) text then .ok survey else .error .unparsable

end Scope

/-- Every hint that the survey of a module reads is silent. -/
def Module.hintsAreSilent (module : Module) : Bool :=
  (Scope.stepOf Scope.onlySilent module.root
    ⟨0, some [], false, false, false, false, .none⟩ .initial).toBool

namespace Scope

/-- A step that does nothing inside a string. -/
def Step.IsIdle (step : Step) : Prop :=
  ∀ context survey, context.address = none → step context survey = .ok survey

namespace Step

theorem IsIdle.andThen {first second : Step} (head : first.IsIdle) (tail : second.IsIdle) :
    (first.andThen second).IsIdle := fun context survey inside =>
  bind_eq_ok.2 ⟨survey, head context survey inside, tail context survey inside⟩

theorem IsIdle.all {steps : List Step} (each : ∀ step ∈ steps, step.IsIdle) : (Step.all steps).IsIdle := by
  induction steps with
  | nil => exact fun _ _ _ => rfl
  | cons step rest ih =>
    rw [Step.all_cons]
    exact (each step (by simp)).andThen (ih fun other mem => each other (by simp [mem]))

end Step

section

variable {spoken : List Char → Bool} {read : List Char → Step}
  (reads : ∀ text, spoken text = true → (read text).IsIdle)

theorem loadAll_idle {parts : List Part} (idle : ∀ part ∈ parts, part.step.IsIdle) :
    (loadAll parts).IsIdle := by
  refine .all fun step mem => ?_
  obtain ⟨part, among, rfl⟩ := List.mem_map.1 mem
  exact fun context survey inside => idle part among (loading context) survey inside

theorem onArguments_idle {parts : List Part} (idle : ∀ part ∈ parts, part.step.IsIdle) :
    (onArguments parts).IsIdle := by
  intro context survey inside
  have all := loadAll_idle idle
  cases called : context.call with
  | none => simp only [onArguments, called]; exact all _ _ inside
  | newType =>
    cases parts with
    | nil => simp only [onArguments, called]; exact all _ _ inside
    | cons first rest =>
      simp only [onArguments, called]
      exact loadAll_idle (fun part mem => idle part (List.mem_cons_of_mem _ mem)) _ _ inside
  | cast =>
    cases parts with
    | nil => simp only [onArguments, called]; exact all _ _ inside
    | cons first rest =>
      simp only [onArguments, called]
      refine bind_eq_ok.2 ⟨survey, idle first (by simp) _ _ inside, ?_⟩
      exact loadAll_idle (fun part mem => idle part (List.mem_cons_of_mem _ mem)) _ _ inside

include reads

theorem onString_idle {node : Node} (silent : isSilentValue spoken (valueOf? node) = true) {step : Step}
    (idle : step.IsIdle) : (onString read node step).IsIdle := by
  intro context survey inside
  have parted := idle context survey inside
  unfold onString
  split
  next =>
    cases valued : valueOf? node with
    | error fault => rw [valued] at silent; exact absurd silent (by simp [isSilentValue])
    | ok found =>
      refine bind_eq_ok.2 ⟨found, rfl, ?_⟩
      cases found with
      | none => exact parted
      | some value =>
        simp only [valued, isSilentValue, Bool.or_eq_true] at silent
        simp only
        split
        next => exact parted
        next text => exact reads _ (silent.resolve_left text) _ survey rfl
  next => exact parted

theorem Act.run_idle {node : Node} (silent : isSilentValue spoken (valueOf? node) = true)
    {parts : List Part} (idle : ∀ part ∈ parts, part.step.IsIdle) {act : Act}
    (quiet : act.isSilent = true) : (act.run read node parts).IsIdle := by
  have part (index : Nat) : (partAt parts index).step.IsIdle := by
    unfold partAt
    rw [List.getD_eq_getElem?_getD]
    cases found : parts[index]? with
    | none => exact fun _ _ _ => rfl
    | some part => exact idle part (List.mem_of_getElem? found)
  have all := loadAll_idle idle
  induction act with
  | nothing => exact fun _ _ _ => rfl
  | andThen first second ihFirst ihSecond =>
    rw [isSilent, Bool.and_eq_true] at quiet
    exact (ihFirst quiet.1).andThen (ihSecond quiet.2)
  | load index => exact fun context survey inside => part index (loading context) survey inside
  | store index => exact fun context survey inside => part index (storing context) survey inside
  | each => exact all
  | alike =>
    refine .all fun step mem => ?_
    obtain ⟨part, among, rfl⟩ := List.mem_map.1 mem
    exact idle part among
  | hints => exact fun context survey inside => all { context with hinting := true } survey inside
  | call =>
    intro context survey inside
    -- Without an address no call is recorded.
    have recorded : recordAt context survey = survey := by unfold recordAt; rw [inside]
    rw [Act.run, onCall_eq, recorded]
    exact bind_eq_ok.2 ⟨survey, part 0 _ _ inside, part 2 _ _ inside⟩
  | arguments => exact onArguments_idle idle
  | subscript => exact fun context survey inside => all _ survey inside
  | string => exact onString_idle reads silent fun _ _ _ => rfl
  | strings => exact onString_idle reads silent all
  | _ => exact absurd quiet (by simp [isSilent])

theorem stepOf_idle {node : Node} (silent : isSilentNode spoken node = true) : (stepOf read node).IsIdle := by
  induction node with
  | leaf l => exact fun _ _ _ => rfl
  | name parens id =>
    intro context survey inside
    simp [stepOf, inside]
  | branch kind parens children ih =>
    simp only [isSilentNode, Bool.and_eq_true] at silent
    obtain ⟨⟨quiet, value⟩, parts⟩ := silent
    have each (nodes : List Node) (silent : isSilentNode.areSilent spoken nodes = true) :
        ∀ node ∈ nodes, isSilentNode spoken node = true := by
      induction nodes with
      | nil => simp
      | cons node rest ihRest =>
        simp only [isSilentNode.areSilent, Bool.and_eq_true] at silent
        simpa using ⟨silent.1, ihRest silent.2⟩
    unfold stepOf
    refine Act.run_idle reads value (fun part mem => ?_) quiet
    obtain ⟨i, child, here, rfl⟩ := mem_partsOf.1 mem
    have among := List.mem_of_getElem? here
    intro context survey inside
    exact ih child among (each children parts child among) _ survey (by simp [Scope.child, inside])

end

theorem readText_idle (fuel depth : Nat) {text : List Char} (silent : isSilentText fuel text = true) :
    (readText depth text).IsIdle := by
  induction fuel generalizing depth text with
  | zero => exact absurd silent (by simp [isSilentText])
  | succ fuel ih =>
    intro context survey inside
    cases depth with
    | zero => rfl
    | succ depth =>
      unfold isSilentText at silent
      unfold readText
      split
      next module read =>
        rw [read] at silent
        exact stepOf_idle (fun _ quiet => ih depth quiet) silent context survey inside
      next => rfl
      next fault other read => simp [read] at silent

/-- Where all hints are silent, it makes no difference how they are read. -/
theorem onlySilent_mirrored (place : Address → Address) (Rel : Survey → Survey → Prop) (depth : Nat)
    (text : List Char) : Mirrored place Rel none (onlySilent text) (readText depth text) := by
  intro context first second after inside related done
  unfold onlySilent at done
  split at done
  next silent =>
    obtain rfl := Except.ok.inj done
    exact ⟨second, readText_idle _ depth silent _ second (by simp [Context.moved, inside]), related⟩
  next => exact absurd done (by simp)

end Scope

end Graft
