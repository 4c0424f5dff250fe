import Graft.Definition
import Graft.Proofs.Tree.Order

set_option autoImplicit false

/-!
Walks turn by turn. What is still to come of a walk is what the recursion gives for all pending nodes, so a walk
ends, and it has then met the nodes of the recursion, each once. A search along it may end where it finds
something.
-/
namespace Graft

namespace Node

/-- Some turns of a walk: the nodes that it meets, from the nodes that are pending before to those that are
pending after. A turn takes the first pending node and puts its children before the others. -/
inductive Turns : Nat → List Located → List Located → List Located → Prop
  | none (pending : List Located) : Turns 0 pending [] pending
  | next {turns : Nat} {address : Address} {node : Node} {pending met after : List Located} :
      Turns turns (node.childrenAt address ++ pending) met after →
        Turns (turns + 1) ((address, node) :: pending) ((address, node) :: met) after

/-- What a walk has still to meet. -/
def due (pending : List Located) : List Located :=
  pending.flatMap fun located => located.2.preorder located.1

/-- A turn takes off the first node that is due, although more nodes may be pending after it. -/
theorem due_cons (address : Address) (node : Node) (pending : List Located) :
    due ((address, node) :: pending) = (address, node) :: due (node.childrenAt address ++ pending) := by
  simp [due, preorder_eq address node]

theorem due_eq_nil_iff {pending : List Located} : due pending = [] ↔ pending = [] := by
  cases pending with
  | nil => simp [due]
  | cons located rest => simp [due_cons located.1 located.2]

theorem due_root (root : Node) : due [([], root)] = root.preorder [] := by
  simp [due]

/-- Whatever is pending, some turns meet the first nodes that are due, and leave the others. -/
theorem Turns.due {turns : Nat} {pending met after : List Located} (run : Turns turns pending met after) :
    Node.due pending = met ++ Node.due after ∧ met.length = turns := by
  induction run with
  | none pending => exact ⟨rfl, rfl⟩
  | next _ ih =>
    obtain ⟨same, length⟩ := ih
    exact ⟨by rw [due_cons, same]; rfl, by rw [List.length_cons, length]⟩

/-- A walk goes on as long as something is due. -/
theorem exists_turns (turns : Nat) (pending : List Located) (bound : turns ≤ (due pending).length) :
    ∃ met after, Turns turns pending met after := by
  induction turns generalizing pending with
  | zero => exact ⟨[], pending, .none pending⟩
  | succ turns ih =>
    cases pending with
    | nil => exact absurd bound (by simp [due])
    | cons located rest =>
      obtain ⟨address, node⟩ := located
      rw [due_cons, List.length_cons] at bound
      obtain ⟨met, after, run⟩ := ih _ (Nat.le_of_succ_le_succ bound)
      exact ⟨_, after, run.next⟩

theorem length_preorder (root : Node) (address : Address) : (root.preorder address).length = root.size := by
  induction root using inductChildren generalizing address with | each node ih => ?_
  have below (index : Nat) (nodes : List Node) (among : ∀ child ∈ nodes, child ∈ node.children) :
      ((childrenFrom address index nodes).flatMap fun located => located.2.preorder located.1).length =
        size.sizeAll nodes := by
    induction nodes generalizing index with
    | nil => rfl
    | cons child rest again =>
      rw [childrenFrom, List.flatMap_cons, List.length_append, ih child (among child (by simp)),
        again (index + 1) fun other mem => among other (by simp [mem]), size.sizeAll]
  rw [preorder_eq, List.length_cons, childrenAt, below 0 _ fun _ mem => mem, size_eq]

/-- A walk ends after as many turns as the tree has nodes. -/
theorem turns_iff (root : Node) (turns : Nat) (met : List Located) :
    Turns turns [([], root)] met [] ↔ turns = root.size ∧ met = root.preorder [] := by
  have length : (due [([], root)]).length = root.size := by rw [due_root, length_preorder]
  have ended {turns : Nat} {met after : List Located} (run : Turns turns [([], root)] met after) :
      root.preorder [] = met ++ due after := by
    rw [← due_root]
    exact run.due.1
  constructor
  next =>
    intro run
    have same : root.preorder [] = met := by simpa [due] using ended run
    exact ⟨by rw [← run.due.2, ← same, length_preorder], same.symm⟩
  next =>
    rintro ⟨rfl, rfl⟩
    obtain ⟨met, after, run⟩ := exists_turns root.size [([], root)] (Nat.le_of_eq length.symm)
    have split := ended run
    have lengths := congrArg List.length split
    rw [List.length_append, length_preorder, run.due.2] at lengths
    obtain rfl : after = [] := due_eq_nil_iff.1 (List.length_eq_zero_iff.1 (by omega))
    rw [split]
    simpa [due] using run

end Node

open Node

namespace Definition

/-- A call whose callee is the bare name of a function. -/
def CallsByName (function : String) (node : Node) : Prop :=
  ∃ parens around id rest, node = .branch .call parens (.name around id :: rest) ∧ id.text = function

theorem isCallTo_iff {function : String} {node : Node} :
    isCallTo function node = true ↔ CallsByName function node := by
  constructor
  next =>
    intro is
    unfold isCallTo at is
    split at is
    next parens around id rest => exact ⟨parens, around, id, rest, rfl, beq_iff_eq.1 is⟩
    next => exact absurd is (by simp)
  next =>
    rintro ⟨parens, around, id, rest, rfl, rfl⟩
    simp [isCallTo]

theorem callTo?_eq (module : Module) (function : String) :
    callTo? module function = (module.root.walk.find? fun located => isCallTo function located.2).map (·.2) :=
  List.find?_map ..

/-- A call of the function that comes before all others. -/
structure IsFirstCall (root : Node) (function : String) (address : Address) (call : Node) : Prop where
  stands : root.part? address = some call
  calls : CallsByName function call
  first : ∀ earlier part, earlier < address → root.part? earlier = some part → ¬ CallsByName function part

theorem callTo?_eq_some_iff {module : Module} {function : String} {call : Node} :
    callTo? module function = some call ↔ ∃ address, IsFirstCall module.root function address call := by
  have ascends := walk_ascends module.root
  rw [callTo?_eq, Option.map_eq_some_iff]
  constructor
  next =>
    rintro ⟨⟨address, node⟩, found, rfl⟩
    obtain ⟨is, before, after, split, none⟩ := List.find?_eq_some_iff_append.1 found
    have here : (address, node) ∈ module.root.walk := by simp [split]
    rw [split, List.pairwise_append, List.pairwise_cons] at ascends
    refine ⟨address, mem_walk.1 here, isCallTo_iff.1 is, fun earlier part less there calls => ?_⟩
    have mem : (earlier, part) ∈ module.root.walk := mem_walk.2 there
    rw [split, List.mem_append, List.mem_cons] at mem
    obtain early | same | late := mem
    next => exact absurd (isCallTo_iff.2 calls) (by simpa using none _ early)
    next =>
      obtain ⟨rfl, -⟩ := Prod.mk.inj same
      exact List.lt_irrefl earlier less
    next => exact List.lt_asymm less (ascends.2.1.1 _ late)
  next =>
    rintro ⟨address, stands, calls, first⟩
    have mem : (address, call) ∈ module.root.walk := mem_walk.2 stands
    obtain ⟨before, after, split⟩ := List.append_of_mem mem
    rw [split, List.pairwise_append] at ascends
    refine ⟨(address, call), List.find?_eq_some_iff_append.2 ⟨isCallTo_iff.2 calls, before, after, split, ?_⟩, rfl⟩
    intro located early
    have free := first located.1 located.2 (ascends.2.2 _ early _ List.mem_cons_self)
      (mem_walk.1 (split ▸ List.mem_append_left _ early))
    simpa using fun is => free (isCallTo_iff.1 is)

@[simp] theorem find?_nodes_glue (function : String) (leaves : List Leaf) :
    (glue leaves).nodes.find? (isCallTo function) = none := by
  have each (l : Leaf) : (leaf l).nodes.find? (isCallTo function) = none := rfl
  rw [nodes_eq, List.find?_cons_of_neg (by simp [glue, plain, isCallTo])]
  induction leaves with
  | nil => rfl
  | cons l rest ih =>
    have children : (glue (l :: rest)).children = leaf l :: (glue rest).children := rfl
    rw [children, List.flatMap_cons, List.find?_append, each, ih]
    rfl

/-- Only the statements of a module count. -/
theorem callTo?_eq_body (module : Module) (function : String) :
    callTo? module function = (module.body.flatMap nodes).find? (isCallTo function) := by
  have root : isCallTo function module.root = false := rfl
  rw [callTo?, nodes_eq, List.find?_cons, root]
  simp [Module.root, plain, List.find?_append]

theorem callTo?_eq_none_iff {module : Module} {function : String} :
    callTo? module function = none ↔
      ∀ address part, module.root.part? address = some part → ¬ CallsByName function part := by
  simp only [callTo?, List.find?_eq_none, mem_nodes, forall_exists_index, isCallTo_iff]
  exact forall_comm

/-- The search may end with the turn that meets the call: what is pending then makes no difference. -/
theorem callTo?_of_turns {module : Module} {function : String} {turns : Nat} {met after : List Located}
    {found : Located} (run : Turns turns [([], module.root)] met after)
    (first : (met.find? fun located => isCallTo function located.2) = some found) :
    callTo? module function = some found.2 := by
  have whole : module.root.walk = met ++ due after := by rw [walk_eq, ← due_root, run.due.1]
  rw [callTo?_eq, whole, List.find?_append, first]
  rfl

/-- Walks are recursive. Taking the first pending node and putting its children before the others comes to an
end for every tree, after one turn for each node, and meets what the recursion gives: the root, and then
everything below each child in turn. The call of a function that is found along a walk is the first one. Neither
what is pending when it is met nor what statements follow makes a difference to that. -/
theorem walk_recursive :
    (∀ root : Node,
      (∀ turns met, Turns turns [([], root)] met [] ↔ turns = root.size ∧ met = root.walk) ∧
      root.walk = root.preorder [] ∧
      root.nodes = root :: root.children.flatMap nodes ∧
      (root.walk.map (·.1)).Nodup ∧
      ∀ address node, (address, node) ∈ root.walk ↔ root.part? address = some node) ∧
    ∀ module function,
      (∀ call, callTo? module function = some call ↔ ∃ address, IsFirstCall module.root function address call) ∧
      (callTo? module function = none ↔
        ∀ address part, module.root.part? address = some part → ¬ CallsByName function part) ∧
      (∀ turns met found after, Turns turns [([], module.root)] (met ++ [found]) after →
        CallsByName function found.2 → (∀ located ∈ met, ¬ CallsByName function located.2) →
          callTo? module function = some found.2) ∧
      ∀ call, callTo? module function = some call →
        ∀ later, callTo? { module with body := module.body ++ later } function = some call := by
  refine ⟨fun root => ⟨fun turns met => ?_, walk_eq root, nodes_eq root, ?_,
    fun address node => mem_walk⟩, fun module function => ⟨fun call => callTo?_eq_some_iff,
      callTo?_eq_none_iff, fun turns met found after run calls before => ?_, fun call found later => ?_⟩⟩
  next => rw [walk_eq, turns_iff]
  next =>
    rw [List.Nodup, List.pairwise_map]
    refine (walk_ascends root).imp fun {first second} less same => ?_
    rw [same] at less
    exact List.lt_irrefl _ less
  next =>
    refine callTo?_of_turns run (List.find?_eq_some_iff_append.2 ⟨isCallTo_iff.2 calls, met, [], rfl, ?_⟩)
    intro located mem
    simpa using fun is => before located mem (isCallTo_iff.1 is)
  next =>
    rw [callTo?_eq_body] at found ⊢
    rw [List.flatMap_append, List.find?_append, found]
    rfl

end Definition

end Graft
