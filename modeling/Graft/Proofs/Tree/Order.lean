import Graft.Proofs.Tree.Address

set_option autoImplicit false

/-!
The order in which the parts of a tree are written. It can be read off their addresses.
-/
namespace Graft

/-- Whether the part at the first address ends before the part at the second begins. -/
def Address.precedes : Address → Address → Bool
  | i :: first, j :: second => i < j || i == j && precedes first second
  | _, _ => false

namespace Address

theorem precedes_cons {i j : Nat} {first second : Address} :
    precedes (i :: first) (j :: second) = true ↔ i < j ∨ i = j ∧ precedes first second = true := by
  simp [precedes]

/-- The order of two paths is kept by what keeps the order of their first steps, and the order of the
rest where these are the same. -/
theorem precedes_congr {i j m n : Nat} {first second early late : Address} (less : m < n ↔ i < j)
    (more : n < m ↔ j < i) (rest : i = j → precedes early late = precedes first second) :
    precedes (m :: early) (n :: late) = precedes (i :: first) (j :: second) := by
  rw [Bool.eq_iff_iff, precedes_cons, precedes_cons, less]
  have same : m = n ↔ i = j := by omega
  refine or_congr_right ?_
  rw [same]
  exact and_congr_right fun step => by rw [rest step]

end Address

namespace Node

theorem leavesAll_take {nodes : List Node} {child : Node} {i j : Nat} (here : nodes[i]? = some child)
    (less : i < j) : ∃ between, leaves.leavesAll (nodes.take j) =
      leaves.leavesAll (nodes.take i) ++ child.leaves ++ between := by
  induction nodes generalizing i j with
  | nil => exact absurd here (by simp)
  | cons node rest ih =>
    obtain ⟨j, rfl⟩ := Nat.exists_eq_add_one_of_ne_zero (Nat.ne_zero_of_lt less)
    cases i with
    | zero =>
      obtain rfl := Option.some.inj here
      exact ⟨_, rfl⟩
    | succ i =>
      obtain ⟨between, split⟩ := ih (by simpa using here) (Nat.lt_of_succ_lt_succ less)
      exact ⟨between, by simp [leaves.leavesAll, split]⟩

theorem leaves_eq {node child : Node} {i : Nat} (here : node.children[i]? = some child) :
    node.leaves = node.parens.opening ++ leaves.leavesAll node.children ++ node.parens.closing := by
  cases node with
  | leaf l => simp [children] at here
  | name parens id => simp [children] at here
  | branch kind parens nodes => rfl

/-- What is written of a tree stands before, in, and after a part of it. -/
theorem leaves_of_part? {root node : Node} {address : Address}
    (found : root.part? address = some node) :
    ∃ before after, root.leavesBefore address = before ++ node.parens.opening ∧
      root.leaves = before ++ node.leaves ++ after := by
  induction address generalizing root with
  | nil => exact Option.some.inj found ▸ ⟨[], [], by simp [leavesBefore], by simp⟩
  | cons i rest ih =>
    rw [part?_cons, Option.bind_eq_some_iff] at found
    obtain ⟨child, here, found⟩ := found
    obtain ⟨before, after, opened, whole⟩ := ih found
    obtain ⟨between, split⟩ := leavesAll_take here (List.getElem?_eq_some_iff.1 here).1
    rw [List.take_length] at split
    refine ⟨root.parens.opening ++ leaves.leavesAll (root.children.take i) ++ before,
      after ++ between ++ root.parens.closing, ?_, ?_⟩
    next => simp only [leavesBefore, here, opened, List.append_assoc]
    next => simp only [leaves_eq here, split, whole, List.append_assoc]

/-- A part that precedes another is written before it, with the brackets around it. -/
theorem leavesBefore_of_precedes {root node : Node} {first second : Address}
    (found : root.part? first = some node) (earlier : first.precedes second = true) :
    ∃ before between, root.leavesBefore first = before ++ node.parens.opening ∧
      root.leavesBefore second = before ++ node.leaves ++ between := by
  induction first generalizing root second with
  | nil => exact absurd earlier (by simp [Address.precedes])
  | cons i first ih =>
    obtain _ | ⟨j, second⟩ := second
    next => exact absurd earlier (by simp [Address.precedes])
    rw [part?_cons, Option.bind_eq_some_iff] at found
    obtain ⟨child, here, found⟩ := found
    have opening (rest : Address) : root.leavesBefore (i :: rest) = root.parens.opening ++
        leaves.leavesAll (root.children.take i) ++ child.leavesBefore rest := by
      simp only [leavesBefore, here]
    obtain less | ⟨rfl, inner⟩ := Address.precedes_cons.1 earlier
    next =>
      obtain ⟨before, after, opened, whole⟩ := leaves_of_part? found
      obtain ⟨between, split⟩ := leavesAll_take here less
      rw [opening, opened, leavesBefore, split, whole]
      exact ⟨_, _, (List.append_assoc _ _ _).symm, by simp only [List.append_assoc]; rfl⟩
    next =>
      obtain ⟨before, between, opened, whole⟩ := ih found inner
      rw [opening, opening, opened, whole]
      exact ⟨_, between, (List.append_assoc _ _ _).symm, by simp only [List.append_assoc]⟩

theorem preorder_ascends (node : Node) (address : Address) :
    (node.preorder address).Pairwise fun first second => first.1 < second.1 := by
  induction node using inductChildren generalizing address with | each node ih => ?_
  have below {i : Nat} {child : Node} {located : Located}
      (mem : located ∈ child.preorder (address ++ [i])) :
      ∃ path, located.1 = address ++ (i :: path) := by
    obtain ⟨path, place, -⟩ := mem_preorder.1 mem
    exact ⟨path, by simp [place]⟩
  rw [preorder_eq, List.pairwise_cons, List.pairwise_flatMap]
  refine ⟨fun located mem => ?_, fun located mem => ?_, ?_⟩
  next =>
    obtain ⟨⟨_, child⟩, among, mem⟩ := List.mem_flatMap.1 mem
    obtain ⟨i, rfl, -⟩ := mem_childrenAt.1 among
    obtain ⟨path, place⟩ := below mem
    simpa [place] using List.append_left_lt (List.nil_lt_cons i path)
  next =>
    obtain ⟨i, place, found⟩ := mem_childrenAt.1 mem
    exact ih located.2 (List.mem_of_getElem? found) located.1
  next =>
    -- Whatever is below one child comes before whatever is below a later one.
    unfold childrenAt
    generalize node.children = nodes
    suffices ∀ index, (childrenFrom address index nodes).Pairwise fun first second =>
        ∀ early ∈ first.2.preorder first.1, ∀ late ∈ second.2.preorder second.1,
          early.1 < late.1 from this 0
    induction nodes with
    | nil => exact fun _ => .nil
    | cons child rest again =>
      intro index
      refine List.pairwise_cons.2 ⟨fun located mem early first late second => ?_, again (index + 1)⟩
      obtain ⟨i, place, -⟩ := mem_childrenFrom.1 mem
      obtain ⟨path, one⟩ := below first
      rw [place] at second
      obtain ⟨other, two⟩ := below second
      rw [one, two]
      exact List.append_left_lt (List.cons_lt_cons_iff.2 (.inl (by omega)))

/-- A walk meets the nodes of a tree in the order of their addresses. -/
theorem walk_ascends (root : Node) : root.walk.Pairwise fun first second => first.1 < second.1 :=
  walk_eq root ▸ preorder_ascends root []

end Node

end Graft
