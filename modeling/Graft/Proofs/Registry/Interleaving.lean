import Graft.Proofs.Registry.Rereading

set_option autoImplicit false

/-!
Imports that are written early or late. A host that works on one module may write what waits at any time:
the requests are answered alike, and once nothing waits the module is the one that a single writing at the
end gives.
-/
namespace Graft

theorem Module.insertLeading_insertLeading (module : Module) {lines : List Node}
    (imports : ∀ line ∈ lines, line.isImportLine = true) (more : List Node) :
    (module.insertLeading lines).insertLeading more = module.insertLeading (lines ++ more) := by
  have bound := module.leadingEnd_le
  have front : (module.body.take module.leadingEnd ++ lines).length = module.leadingEnd + lines.length := by
    simp [bound]
  -- The imports lengthen the leading section by themselves, so that the second cut falls right behind them.
  have later := module.leadingEnd_insertLeading imports
  rw [← front] at later
  rw [insertLeading, later]
  simp only [insertLeading, List.take_left, List.drop_left]
  simp only [List.append_assoc]

namespace Registry

/-- What a host does that writes into the module it works on. -/
inductive Turn where
  | request (wanted : Export)
  | write
  deriving DecidableEq, Repr

def Turn.isRequest : Turn → Bool
  | .request _ => true
  | .write => false

/-- A registry in use, and its module as it is by now. -/
structure Draft where
  registry : Registry
  module : Module

namespace Draft

def write (draft : Draft) : Draft :=
  { registry := (draft.registry.apply draft.module).1
    module := (draft.registry.apply draft.module).2 }

def step (draft : Draft) : Turn → Draft
  | .request wanted =>
    match draft.registry.ensure wanted with
    | .ok ensured => { draft with registry := ensured.registry }
    | .error _ => draft
  | .write => draft.write

def run (draft : Draft) (turns : List Turn) : Draft := turns.foldl step draft

def answer? (draft : Draft) : Turn → Option (Except Identifier.Fault String)
  | .request wanted => some ((draft.registry.ensure wanted).map Ensured.name)
  | .write => none

/-- The names that the requests are given, or why they are refused. -/
def answers : Draft → List Turn → List (Except Identifier.Fault String)
  | _, [] => []
  | draft, turn :: rest => (draft.answer? turn).toList ++ (draft.step turn).answers rest

/-- One draft has written the first part of what still waits in the other. -/
structure Precedes (early late : Draft) (written : List Node) : Prop where
  known : early.registry.known = late.registry.known
  taken : early.registry.taken = late.registry.taken
  pending : late.registry.pending = written ++ early.registry.pending
  imports : ∀ line ∈ late.registry.pending, line.isImportLine = true
  module : early.module = late.module.insertLeading written

theorem Precedes.refl {draft : Draft}
    (imports : ∀ line ∈ draft.registry.pending, line.isImportLine = true) : Precedes draft draft [] :=
  ⟨rfl, rfl, rfl, imports, by simp [Module.insertLeading]⟩

variable {early late : Draft} {written : List Node}

/-- What both have yet to write makes them one. -/
theorem Precedes.write_eq (precedes : Precedes early late written) : early.write = late.write := by
  obtain ⟨known, taken, pending, imports, module⟩ := precedes
  have first : ∀ line ∈ written, line.isImportLine = true := fun line mem =>
    imports line (pending ▸ List.mem_append_left _ mem)
  simp only [write, apply_eq, known, taken, module, pending, Module.insertLeading_insertLeading _ first]

theorem Precedes.write (precedes : Precedes early late written) :
    Precedes early.write late (written ++ early.registry.pending) := by
  obtain ⟨known, taken, pending, imports, module⟩ := precedes
  have first : ∀ line ∈ written, line.isImportLine = true := fun line mem =>
    imports line (pending ▸ List.mem_append_left _ mem)
  simp only [Draft.write, apply_eq, module, Module.insertLeading_insertLeading _ first]
  exact ⟨known, taken, by rw [pending, List.append_nil], imports, rfl⟩

/-- A request is answered by the known exports and the taken names, and those are the same. -/
theorem Precedes.request (precedes : Precedes early late written) (wanted : Export) :
    early.answer? (.request wanted) = late.answer? (.request wanted) ∧
      Precedes (early.step (.request wanted)) (late.step (.request wanted)) written := by
  obtain ⟨known, taken, pending, imports, module⟩ := precedes
  simp only [answer?, step, ensure, known, taken]
  cases found : late.registry.known.lookup wanted with
  | some name => exact ⟨rfl, known, taken, pending, imports, module⟩
  | none =>
    cases made : importLine wanted (Fresh.choose late.registry.taken wanted.name) with
    | error fault => exact ⟨rfl, known, taken, pending, imports, module⟩
    | ok line =>
      refine ⟨rfl, rfl, rfl, ?_, ?_, module⟩
      next => simp [pending]
      next =>
        intro other mem
        obtain mem | mem := List.mem_append.1 mem
        next => exact imports other mem
        next => exact List.mem_singleton.1 mem ▸ (readsAs_of_importLine made).isImportLine

theorem Precedes.run (precedes : Precedes early late written) (turns : List Turn) :
    early.answers turns = late.answers (turns.filter Turn.isRequest) ∧
      ∃ more, Precedes (early.run turns) (late.run (turns.filter Turn.isRequest)) more := by
  -- Both take a request; a writing is a turn of the early draft only, which lengthens what it is ahead by.
  induction turns generalizing early late written with
  | nil => exact ⟨rfl, written, precedes⟩
  | cons turn rest ih =>
    cases turn with
    | request wanted =>
      obtain ⟨same, after⟩ := precedes.request wanted
      obtain ⟨others, later⟩ := ih after
      rw [List.filter_cons_of_pos rfl, answers, answers, same, others]
      exact ⟨rfl, later⟩
    | write =>
      rw [List.filter_cons_of_neg (by simp [Turn.isRequest])]
      exact ih precedes.write

end Draft

/-- Whenever the imports are written, the requests are given the same names and the module ends up the same
as if all were written at the end. Each writing makes the leading section longer by what it writes. -/
theorem written_early_or_late (module : Module) (survey : Scope.Survey) (turns : List Turn) :
    let start : Draft := ⟨(ofModule module survey).1, module⟩
    let requests := turns.filter Turn.isRequest
    start.answers turns = start.answers requests ∧
      (start.run turns).write = (start.run requests).write ∧
        (start.run turns).write.module.leadingEnd =
          (start.run turns).module.leadingEnd + (start.run turns).registry.pending.length := by
  intro start requests
  have begun : Draft.Precedes start start [] := .refl (by simp [start, ofModule])
  obtain ⟨same, written, precedes⟩ := begun.run turns
  refine ⟨same, precedes.write_eq, ?_⟩
  have imports : ∀ line ∈ (start.run turns).registry.pending, line.isImportLine = true := fun line mem =>
    precedes.imports line (precedes.pending ▸ List.mem_append_right _ mem)
  rw [Draft.write, apply_eq]
  exact Module.leadingEnd_insertLeading _ imports

end Registry

end Graft
