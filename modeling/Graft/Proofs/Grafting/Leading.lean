import Graft.Proofs.Grafting.Inject
import Graft.Tree.Import

set_option autoImplicit false

/-!
The leading section of a module. It is seen from the kinds of statements alone, so that it stays as
long as it was when calls get their configurations.
-/
namespace Graft

open Node

variable {configs : List (Address × Node)}

namespace Node

section

variable {B : Type} {view : Node → B}
  (same : ∀ place node, view (node.inject configs place) = view node) (address : Address)

include same

theorem map_filter_injectFrom (index : Nat) (nodes : List Node) :
    ((inject.injectFrom configs address index nodes).filter fun part => !part.isA .glue).map view =
      (nodes.filter fun part => !part.isA .glue).map view := by
  induction nodes generalizing index with
  | nil => rfl
  | cons node rest ih =>
    rw [inject.injectFrom, List.filter_cons, List.filter_cons, isA_inject]
    split
    next => rw [List.map_cons, List.map_cons, ih, same]
    next => exact ih _

omit same in
/-- What is only seen of nodes of one kind, and there of their parts, is kept. -/
theorem kept_of_kind {kind : Kind} (other : kind ≠ .call) {nothing : B}
    (blind : ∀ node, node.isA kind = false → view node = nothing)
    (parts : ∀ parens nodes, view (branch kind parens (inject.injectFrom configs address 0 nodes)) =
      view (branch kind parens nodes)) (node : Node) : view (node.inject configs address) = view node := by
  cases is : node.isA kind with
  | true =>
    obtain ⟨parens, nodes, rfl⟩ := exists_branch is
    rw [inject_of_not_call configs address other, parts]
  | false => rw [blind _ is, blind _ ((isA_inject configs address node kind).trans is)]

theorem map_smalls_inject (node : Node) :
    (node.inject configs address).smalls.map view = node.smalls.map view := by
  refine @kept_of_kind _ _ (fun node => node.smalls.map view) _ .line (by decide) [] (fun node other => ?_)
    (fun _ nodes => map_filter_injectFrom same address 0 nodes) node
  unfold smalls
  split
  next => exact absurd other (by simp [isA])
  next => rfl

theorem map_blockStatements_inject (node : Node) :
    (node.inject configs address).blockStatements.map view = node.blockStatements.map view := by
  refine @kept_of_kind _ _ (fun node => node.blockStatements.map view) _ .block (by decide) []
    (fun node other => ?_) (fun _ nodes => map_filter_injectFrom same address 0 nodes) node
  unfold blockStatements
  split
  next => exact absurd other (by simp [isA])
  next => rfl

end

variable (configs)

theorem isStringExpression_inject (address : Address) (node : Node) :
    (node.inject configs address).isStringExpression = node.isStringExpression := by
  refine @kept_of_kind _ _ isStringExpression _ .expression (by decide) false (fun node other => ?_)
    (fun _ nodes => ?_) node
  next =>
    unfold isStringExpression
    split
    next => exact absurd other (by simp [isA])
    next => rfl
  next =>
    rcases nodes with _ | ⟨value, _ | ⟨next, rest⟩⟩
    next => rfl
    next => simp [inject.injectFrom, isStringExpression]
    next => rfl

theorem isStringLine_eq (node : Node) :
    node.isStringLine = decide (node.smalls.map isStringExpression = [true]) := by
  unfold isStringLine
  split
  next small only => simp [only]
  next several =>
    generalize node.smalls = parts at several
    rcases parts with _ | ⟨only, _ | ⟨next, rest⟩⟩
    next => simp
    next => exact absurd rfl (several only)
    next => simp

theorem isImport_inject (address : Address) (node : Node) :
    (node.inject configs address).isImport = node.isImport := by
  simp [isImport, isImportFrom]

omit configs in
theorem all_eq {shows : Node → Bool} (nodes : List Node) : (!nodes.isEmpty && nodes.all shows) =
    (!(nodes.map shows).isEmpty && (nodes.map shows).all id) := by
  simp [List.all_map]

theorem isImportLine_inject (address : Address) (node : Node) :
    (node.inject configs address).isImportLine = node.isImportLine := by
  rw [isImportLine, all_eq, map_smalls_inject (isImport_inject configs), ← all_eq]
  rfl

theorem isImportBlock_inject (address : Address) (node : Node) :
    (node.inject configs address).isImportBlock = node.isImportBlock := by
  refine @kept_of_kind _ _ isImportBlock _ .tryBlock (by decide) false (fun node other => ?_)
    (fun _ nodes => ?_) node
  next =>
    unfold isImportBlock
    split
    next => exact absurd other (by simp [isA])
    next => rfl
  next =>
    rcases nodes with _ | ⟨word, _ | ⟨colon, _ | ⟨body, handlers⟩⟩⟩
    next => rfl
    next => rfl
    next => rfl
    next =>
      simp only [inject.injectFrom, isImportBlock]
      rw [all_eq, map_blockStatements_inject (isImportLine_inject configs), ← all_eq]

theorem isLeading_inject (index : Nat) (address : Address) (node : Node) :
    (node.inject configs address).isLeading index = node.isLeading index := by
  simp only [isLeading, isDocstring, isStringLine_eq,
    map_smalls_inject (isStringExpression_inject configs), isImportLine_inject, isImportBlock_inject]

end Node

namespace Module

theorem leadingFrom_injectFrom (address : Address) (place index : Nat) (nodes : List Node) :
    leadingFrom index (inject.injectFrom configs address place nodes) = leadingFrom index nodes := by
  induction nodes generalizing place index with
  | nil => rfl
  | cons node rest ih => simp only [inject.injectFrom, leadingFrom, isLeading_inject, ih]

theorem leadingEnd_inject (module : Module) : (module.inject configs).leadingEnd = module.leadingEnd :=
  leadingFrom_injectFrom [] 1 0 module.body

end Module

end Graft
