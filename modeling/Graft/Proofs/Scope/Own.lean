import Graft.Proofs.Scope.Bindings
import Graft.Proofs.Scope.Names

set_option autoImplicit false

/-!
The bindings of a name, with or without those that are made inside strings. Steps that bind other names
leave them as they are. A text inside a string leaves those alone that are written in the tree around
it, and all of them if it does not mention the name.
-/
namespace Graft.Scope

/-- A text that is a module with a name in it, or with a string that mentions the name. -/
inductive Mentions (name : String) : List Char → Prop
  | spelled {text : List Char} {module : Module} (spells : Module.read (String.ofList text) = .ok module)
      (mem : name ∈ module.root.identifiers) : Mentions name text
  | quoted {text : List Char} {module : Module} (spells : Module.read (String.ofList text) = .ok module)
      {node : Node} (mem : node ∈ module.root.nodes) {value : Literal.Value}
      (valued : valueOf? node = .ok (some value)) (inner : Mentions name (literalText value)) :
      Mentions name text

/-- A string of the tree mentions a name. -/
def Quotes (root : Node) (name : String) : Prop :=
  ∃ node ∈ root.nodes, ∃ value, valueOf? node = .ok (some value) ∧ Mentions name (literalText value)

/-- Whether a binding counts: all do, or those that are not made inside a string. -/
def Binding.counts (all : Bool) (binding : Binding) : Bool := all || binding.origin.isSome

namespace Survey

/-- The bindings of a name that count. -/
def counted (survey : Survey) (all : Bool) (name : String) : List Binding :=
  (survey.bindingsOf name).filter (Binding.counts all)

@[simp] theorem counted_all (survey : Survey) (name : String) :
    survey.counted true name = survey.bindingsOf name := by
  simp [counted, Binding.counts]

end Survey

def countedAmong (all : Bool) (name : String) (bindings : List Binding) : List Binding :=
  (bindings.filter fun binding => binding.name == name).filter (Binding.counts all)

theorem countedAmong_append (all : Bool) (name : String) (first rest : List Binding) :
    countedAmong all name (first ++ rest) = countedAmong all name first ++ countedAmong all name rest := by
  simp [countedAmong]

namespace Survey

variable {all : Bool} {name : String}

theorem counted_eq (survey : Survey) (all : Bool) (name : String) : survey.counted all name =
    survey.frames.flatMap fun frame => countedAmong all name frame.bindings := by
  rw [counted, bindingsOf, List.filter_flatMap]
  rfl

theorem flatMap_modify {A B : Type} {view : A → List B} {change : A → A}
    (same : ∀ a, view (change a) = view a) (items : List A) (i : Nat) :
    (items.modify i change).flatMap view = items.flatMap view := by
  induction items generalizing i with
  | nil => simp
  | cons item rest ih => cases i <;> simp [same, ih]

theorem counted_updateFrame {change : Frame → Frame} (same : ∀ frame,
      countedAmong all name (change frame).bindings = countedAmong all name frame.bindings)
    (survey : Survey) (scope : Nat) :
    (survey.updateFrame scope change).counted all name = survey.counted all name := by
  rw [counted_eq, counted_eq]
  exact flatMap_modify same survey.frames scope

/-- A binding of another name, or one that does not count, makes no difference. -/
theorem counted_bind {other : String} {origin : Option Address}
    (apart : other ≠ name ∨ all = false ∧ origin = none) (survey : Survey) (scope : Nat)
    (clause : Option Clause) :
    (survey.bind scope other clause origin).counted all name = survey.counted all name := by
  refine counted_updateFrame (fun frame => ?_) survey _
  rw [countedAmong_append]
  obtain apart | ⟨rfl, rfl⟩ := apart
  next => simp [countedAmong, apart]
  next => simp [countedAmong, Binding.counts, List.filter_filter]

theorem counted_bind_module {survey : Survey} (grounded : survey.IsGrounded)
    (none : survey.counted all name = []) (clause : Option Clause) (origin : Address) :
    ∃ binding, (survey.bind 0 name clause (some origin)).counted all name = [binding] ∧
      binding ∈ ((survey.bind 0 name clause (some origin)).frame 0).bindings ∧
        binding.clause = clause ∧ binding.origin = some origin := by
  have target := targetOf_module grounded name (survey.frames.length + 1)
  obtain ⟨frames, sites⟩ := survey
  obtain _ | ⟨first, rest⟩ := frames
  next => obtain ⟨_, found, -⟩ := grounded; exact absurd found (by simp)
  simp only [counted_eq, List.flatMap_cons, List.append_eq_nil_iff] at none
  refine ⟨⟨name, first.clock, clause, some origin⟩, ?_, ?_, rfl, rfl⟩
  next =>
    simp only [bind, target, updateFrame, counted_eq, List.modify_zero_cons, List.flatMap_cons,
      countedAmong_append, none.1, none.2]
    simp [countedAmong, Binding.counts]
  next =>
    rw [bind, target]
    simp [updateFrame, Survey.frame]

theorem mem_frame_of_mem {survey : Survey} {binding : Binding} {scope target : Nat}
    {change : Frame → Frame} (grows : ∀ frame, binding ∈ frame.bindings → binding ∈ (change frame).bindings)
    (mem : binding ∈ (survey.frame scope).bindings) :
    binding ∈ ((survey.updateFrame target change).frame scope).bindings := by
  unfold Survey.frame at mem ⊢
  rw [List.getD_eq_getElem?_getD] at mem ⊢
  rw [frames_updateFrame]
  cases found : survey.frames[scope]? with
  | none => rw [found] at mem; exact absurd mem (by simp)
  | some frame =>
    rw [found] at mem
    rw [Option.map_some, Option.getD_some]
    split
    next => exact grows frame mem
    next => exact mem

/-- The bindings of a name that count are the ones that have been found, and those belong to the
module. -/
structure Owns (all : Bool) (name : String) (found : List Binding) (survey : Survey) : Prop where
  grounded : survey.IsGrounded
  counted : survey.counted all name = found
  module : ∀ binding ∈ found, binding ∈ (survey.frame 0).bindings

namespace Owns

variable {found : List Binding} {survey : Survey} (owns : Owns all name found survey)

include owns

theorem bind {other : String} {origin : Option Address}
    (apart : other ≠ name ∨ all = false ∧ origin = none) (scope : Nat) (clause : Option Clause) :
    Owns all name found (survey.bind scope other clause origin) where
  grounded := isGrounded_updateFrame (fun _ _ => rfl) owns.grounded
  counted := (counted_bind apart survey scope clause).trans owns.counted
  module binding mem :=
    mem_frame_of_mem (fun _ among => List.mem_append_left _ among) (owns.module binding mem)

theorem tick (scope : Nat) : Owns all name found (survey.tick scope) where
  grounded := isGrounded_updateFrame (fun _ _ => rfl) owns.grounded
  counted := by
    refine (counted_updateFrame ?_ survey scope).trans owns.counted
    exact fun _ => rfl
  module binding mem := mem_frame_of_mem (fun _ among => among) (owns.module binding mem)

theorem openScope (region : Region) (parent : Nat) :
    Owns all name found (survey.openScope region parent).2 where
  grounded := (isGrounded_kept .absent).openScope owns.grounded region parent
  counted := by
    rw [← owns.counted, counted_eq, counted_eq, Survey.openScope, List.flatMap_append]
    simp [countedAmong]
  module binding mem := by
    have among := owns.module binding mem
    obtain ⟨frame, first, -⟩ := owns.grounded
    unfold Survey.frame at among ⊢
    rw [List.getD_eq_getElem?_getD] at among ⊢
    rwa [Survey.openScope, List.getElem?_append_left (List.getElem?_eq_some_iff.1 first).1]

theorem redirect {scope : Nat} (inner : scope ≠ 0) (other : String) (target : Nat) :
    Owns all name found (survey.redirect scope other target) where
  grounded := isGrounded_updateFrame (fun here => absurd here inner) owns.grounded
  counted := by
    refine (counted_updateFrame ?_ survey scope).trans owns.counted
    exact fun _ => rfl
  module binding mem := mem_frame_of_mem (fun _ among => among) (owns.module binding mem)

theorem record (call : Address) (scope : Nat) : Owns all name found (survey.record call scope) :=
  ⟨owns.grounded, owns.counted, owns.module⟩

end Owns

end Survey

open Survey

theorem owns_keptWhere (root : Node) (all : Bool) (name : String) (found : List Binding) :
    KeptWhere root (fun other _ => other ∉ [name]) (Owns all name found) where
  bind owns scope _ clause _ apart _ := owns.bind (.inl (by simpa using apart)) scope clause
  tick owns := owns.tick
  openScope owns := owns.openScope
  redirect owns _ inner := owns.redirect inner
  record owns call _ _ _ := owns.record call

variable {name : String} {found : List Binding}

/-- A tree in which no binding can stand. -/
def nowhere : Node := .plain .importing []

theorem not_made_nowhere {other : String} {clause : Option Clause} {address : Address} :
    ¬ Made nowhere other clause (some address) := by
  intro made
  obtain ⟨node, here, said, bound⟩ := made address rfl
  cases address with
  | nil =>
    obtain rfl := Option.some.inj here
    exact absurd (bound ⟨"", []⟩ said.symm) (by simp [Clause.boundNames])
  | cons i rest => exact absurd here (by simp [nowhere, Node.plain, Node.part?_cons])

theorem readText_ownsTree (fuel : Nat) (text : List Char) :
    (readText fuel text).Keeps (Owns false name found) none := by
  refine @readText_keeps nowhere _ ?_ fuel text
  refine ⟨fun owns scope _ clause origin made => ?_, fun owns => owns.tick, fun owns => owns.openScope,
    fun owns _ inner => owns.redirect inner, fun owns => owns.record⟩
  cases origin with
  | none => exact owns.bind (.inr ⟨rfl, rfl⟩) scope clause
  | some address => exact absurd made not_made_nowhere

/-- A text that does not mention a name neither binds it nor looks it up. -/
theorem readText_owns (valid : isIdentifier name = true) (word : isKeyword name = false) (fuel : Nat)
    {text : List Char} (apart : ¬ Mentions name text) :
    (readText fuel text).Keeps (Owns true name found) none := by
  refine readText_keepsWhere (fun text => ¬ Mentions name text) ?_ fuel apart
  intro read text module apart spells reads
  have strange : Strange module.root [name] := by
    refine ⟨?_, none_not_mem ?_, ?_⟩ <;> simp only [List.mem_singleton, forall_eq]
    next => exact valid
    next => exact word
    next => exact fun mem => apart (.spelled spells mem)
  have mem {path : Address} {part : Node} (stands : module.root.part? path = some part) :
      part ∈ module.root.nodes := Node.mem_nodes.2 ⟨path, stands⟩
  refine stepOf_keepsWhere (owns_keptWhere module.root true name found) strange.empty.not_mem module.root
    (fun path part value stands valued => reads _ fun inner => ?_) (by simp)
    fun path part stands => strange.speaks (mem stands)
  exact apart (.quoted spells (mem stands) valued inner)

/-- What is read may be any text where only the tree counts, else one that does not mention the name. -/
theorem readText_keeps_owns (valid : isIdentifier name = true) (word : isKeyword name = false) {all : Bool}
    (fuel : Nat) {text : List Char} (apart : all = true → ¬ Mentions name text) :
    (readText fuel text).Keeps (Owns all name found) none := by
  cases all with
  | false => exact readText_ownsTree fuel text
  | true => exact readText_owns valid word fuel (apart rfl)

end Graft.Scope
