import Graft.Proofs.Scope.Insertion

set_option autoImplicit false

/-!
The statements that the bindings of a grown survey stand for. Those of the module bind what they bound,
from where they stand now; the new names are bound by the inserted imports and by nothing else.
-/
namespace Graft.Scope

namespace Survey

theorem own_updateFrame (survey : Survey) (scope : Nat) (change : Frame → Frame)
    (kept : ∀ frame, (change frame).bindings = frame.bindings) (i : Nat) (name : String) :
    (survey.updateFrame scope change).own i name = survey.own i name := by
  unfold own
  rw [frame_updateFrame]
  split
  · rw [kept]
  · rfl

theorem own_tick (survey : Survey) (scope i : Nat) (name : String) :
    (survey.tick scope).own i name = survey.own i name := by
  unfold tick
  apply own_updateFrame
  exact fun _ => rfl

theorem own_redirect (survey : Survey) (scope : Nat) (name : String) (target i : Nat) (wanted : String) :
    (survey.redirect scope name target).own i wanted = survey.own i wanted := by
  unfold redirect
  apply own_updateFrame
  exact fun _ => rfl

theorem own_bind (survey : Survey) (scope : Nat) (name : String) (clause : Option Clause)
    (origin : Option Address) (i : Nat) (wanted : String) :
    (survey.bind scope name clause origin).own i wanted = survey.own i wanted ++
      if survey.targetOf name (survey.frames.length + 1) scope = i ∧ i < survey.frames.length ∧
          name = wanted then [⟨name, (survey.frame i).clock, clause, origin⟩] else [] := by
  unfold own bind
  rw [frame_updateFrame]
  generalize survey.targetOf name (survey.frames.length + 1) scope = target
  by_cases same : name = wanted
  · by_cases here : target = i ∧ i < survey.frames.length
    · simp [here, same]
    · have absent : ¬ (target = i ∧ i < survey.frames.length ∧ name = wanted) :=
        fun both => here ⟨both.1, both.2.1⟩
      rw [if_neg here, if_neg absent, List.append_nil]
  · have absent : ¬ (target = i ∧ i < survey.frames.length ∧ name = wanted) := fun both => same both.2.2
    rw [if_neg absent, List.append_nil]
    split
    · simp [same]
    · rfl

theorem own_bind_of_ne (survey : Survey) (scope : Nat) {name wanted : String} (apart : name ≠ wanted)
    (clause : Option Clause) (origin : Option Address) (i : Nat) :
    (survey.bind scope name clause origin).own i wanted = survey.own i wanted := by
  rw [own_bind]
  split
  next both => exact absurd both.2.2 apart
  next => exact List.append_nil _

theorem own_openScope (survey : Survey) (region : Region) (parent i : Nat) (name : String) :
    (survey.openScope region parent).2.own i name = survey.own i name := by
  unfold own
  rw [frame_openScope]
  split
  next last =>
    -- A scope that has not been opened has no bindings.
    subst last
    have none : (survey.frame survey.frames.length).bindings = [] := by
      simp [frame, List.getD_eq_getElem?_getD]
    rw [none]
  next => rfl

end Survey

/-- Where the bindings of the second survey come from. -/
structure Traces (names : List String) (place : Address → Address) (New : Option Address → Prop)
    (first second : Survey) : Prop where
  old : ∀ scope name, name ∉ names → (second.own scope name).map Binding.origin =
    (first.own scope name).map fun binding => binding.origin.map place
  new : ∀ scope name, name ∈ names → ∀ binding ∈ second.own scope name, New binding.origin

namespace Traces

variable {root : Node} {names : List String} {place : Address → Address} {New : Option Address → Prop}
  {since count : Nat} {first second third : Survey}

theorem initial (names : List String) (place : Address → Address) (New : Option Address → Prop) :
    Traces names place New .initial .initial := by
  have none (scope : Nat) (name : String) : Survey.initial.own scope name = [] := by
    cases scope <;> rfl
  constructor <;> intro scope name _ <;> simp [none]

theorem congr {after reached : Survey} (traces : Traces names place New first second)
    (before : ∀ scope name, after.own scope name = first.own scope name)
    (later : ∀ scope name, reached.own scope name = second.own scope name) :
    Traces names place New after reached where
  old scope name other := by rw [before, later, traces.old scope name other]
  new scope name known := by rw [later]; exact traces.new scope name known

theorem bind (traces : Traces names place New first second)
    (grown : Grown root names place since count first second) (scope : Nat) {name : String}
    (other : name ∉ names) (clause : Option Clause) (origin : Option Address) :
    Traces names place New (first.bind scope name clause origin)
      (second.bind scope name clause (origin.map place)) where
  old i wanted apart := by
    rw [Survey.own_bind, Survey.own_bind, List.map_append, List.map_append, traces.old i wanted apart,
      grown.targetOf, grown.length]
    split <;> rfl
  new i wanted known := by
    have apart : name ≠ wanted := fun same => other (same ▸ known)
    rw [Survey.own_bind_of_ne second scope apart]
    exact traces.new i wanted known

theorem imported (traces : Traces names place New first second) {name : String} (mem : name ∈ names)
    (scope : Nat) (clause : Option Clause) {origin : Option Address} (new : New origin) :
    Traces names place New first ((second.bind scope name clause origin).tick scope) := by
  constructor
  · intro i wanted other
    have apart : name ≠ wanted := fun same => other (same ▸ mem)
    rw [Survey.own_tick, Survey.own_bind_of_ne second scope apart, traces.old i wanted other]
  · intro i wanted known binding among
    rw [Survey.own_tick, Survey.own_bind, List.mem_append] at among
    rcases among with there | added
    · exact traces.new i wanted known binding there
    · split at added
      · rw [List.mem_singleton.1 added]
        exact new
      · exact absurd added List.not_mem_nil

/-- Growth and the traces of it are kept together. -/
theorem mirror (root : Node) (names : List String) (place : Address → Address)
    (New : Option Address → Prop) (since count : Nat) :
    Mirror root (fun name _ => name ∉ names) place fun first second =>
      Grown root names place since count first second ∧ Traces names place New first second := by
  have grows := Grown.mirror root names place since count
  constructor
  case parent => exact fun both => grows.parent both.1
  case length => exact fun both => grows.length both.1
  case imported => exact fun both => grows.imported both.1
  case bind =>
    exact fun both scope name clause origin other made =>
      ⟨grows.bind both.1 scope other made, both.2.bind both.1 scope other clause origin⟩
  case tick =>
    exact fun both scope => ⟨grows.tick both.1 scope,
      both.2.congr (Survey.own_tick _ scope) (Survey.own_tick _ scope)⟩
  case openScope =>
    exact fun both region parent => ⟨grows.openScope both.1 region parent,
      both.2.congr (Survey.own_openScope _ region parent) (Survey.own_openScope _ region parent)⟩
  case redirect =>
    exact fun both scope inner name target => ⟨grows.redirect both.1 inner name target,
      both.2.congr (Survey.own_redirect _ scope name target) (Survey.own_redirect _ scope name target)⟩
  case record =>
    exact fun both call node stands is scope => ⟨grows.record both.1 stands is scope,
      both.2.congr (fun _ _ => rfl) fun _ _ => rfl⟩

end Traces

end Graft.Scope
