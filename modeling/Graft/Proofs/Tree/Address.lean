import Graft.Proofs.Tree.Shape
import Graft.Tree.Walk

set_option autoImplicit false

/-!
The node at an address, and the walk over a tree as the list of all of them.
-/
namespace Graft.Node

/-- The part of a tree at an address. -/
def part? : Address → Node → Option Node
  | [], node => some node
  | i :: rest, node => (node.children[i]?).bind (part? rest)

@[simp] theorem children_branch (kind : Kind) (parens : Parens) (nodes : List Node) :
    (branch kind parens nodes).children = nodes := rfl

@[elab_as_elim]
theorem inductChildren {motive : Node → Prop}
    (each : ∀ node, (∀ child ∈ node.children, motive child) → motive node) (node : Node) : motive node := by
  induction node with
  | leaf l => exact each _ (by simp [children])
  | name parens id => exact each _ (by simp [children])
  | branch kind parens nodes ih => exact each _ ih

@[simp] theorem part?_nil (node : Node) : part? [] node = some node := rfl

theorem part?_cons (i : Nat) (rest : Address) (node : Node) :
    part? (i :: rest) node = (node.children[i]?).bind (part? rest) := rfl

@[elab_as_elim]
theorem inductParts {motive : Node → Prop} (each : ∀ node,
      (∀ i path part, node.part? (i :: path) = some part → motive part) → motive node) (node : Node) :
    motive node := by
  suffices every : ∀ path part, node.part? path = some part → motive part from every [] node rfl
  induction node using inductChildren with | each node ih => ?_
  have below (i : Nat) (path : Address) (part : Node) (found : node.part? (i :: path) = some part) :
      motive part := by
    rw [part?_cons, Option.bind_eq_some_iff] at found
    obtain ⟨child, here, found⟩ := found
    exact ih child (List.mem_of_getElem? here) path part found
  intro path part found
  cases path with
  | nil => exact Option.some.inj found ▸ each node below
  | cons i path => exact below i path part found

theorem part?_append (above below : Address) (root : Node) :
    part? (above ++ below) root = (part? above root).bind (part? below) := by
  induction above generalizing root with
  | nil => rfl
  | cons i rest ih =>
    rw [List.cons_append, part?_cons, part?_cons, Option.bind_assoc]
    exact Option.bind_congr fun child _ => ih child

theorem part?_concat (above : Address) (i : Nat) (root : Node) :
    part? (above ++ [i]) root = (part? above root).bind fun node => node.children[i]? := by
  rw [part?_append]
  refine Option.bind_congr fun node _ => ?_
  rw [part?_cons]
  exact Option.bind_fun_some _

theorem preorder_branch (address : Address) (kind : Kind) (parens : Parens) (children : List Node) :
    (branch kind parens children).preorder address =
      (address, branch kind parens children) :: preorder.preorderFrom address 0 children := rfl

theorem preorderFrom_eq (address : Address) (index : Nat) (nodes : List Node) :
    preorder.preorderFrom address index nodes =
      (childrenFrom address index nodes).flatMap fun located => located.2.preorder located.1 := by
  induction nodes generalizing index with
  | nil => rfl
  | cons node rest ih => simp [preorder.preorderFrom, childrenFrom, ih]

theorem preorder_eq (address : Address) (node : Node) :
    node.preorder address =
      (address, node) :: (node.childrenAt address).flatMap fun located =>
        located.2.preorder located.1 := by
  cases node with
  | leaf l => rfl
  | name parens id => rfl
  | branch kind parens children => rw [preorder_branch, preorderFrom_eq]; rfl

theorem mem_childrenFrom {address : Address} {index : Nat} {nodes : List Node} {located : Located} :
    located ∈ childrenFrom address index nodes ↔
      ∃ i, located.1 = address ++ [index + i] ∧ nodes[i]? = some located.2 := by
  induction nodes generalizing index with
  | nil => simp [childrenFrom]
  | cons node rest ih =>
    rw [childrenFrom, List.mem_cons, ih]
    constructor
    next =>
      rintro (rfl | ⟨i, place, found⟩)
      next => exact ⟨0, rfl, rfl⟩
      next => exact ⟨i + 1, by simp [place]; omega, by simpa using found⟩
    next =>
      rintro ⟨i, place, found⟩
      cases i with
      | zero => exact .inl (Prod.ext place (Option.some.inj found).symm)
      | succ i => exact .inr ⟨i, by simp [place]; omega, by simpa using found⟩

theorem childrenFrom_append (address : Address) (index : Nat) (first rest : List Node) :
    childrenFrom address index (first ++ rest) =
      childrenFrom address index first ++ childrenFrom address (index + first.length) rest := by
  induction first generalizing index with
  | nil => rfl
  | cons node first ih => simp [childrenFrom, ih, Nat.add_assoc, Nat.add_comm 1]

theorem mem_childrenAt {address : Address} {node : Node} {located : Located} :
    located ∈ node.childrenAt address ↔
      ∃ i, located.1 = address ++ [i] ∧ node.children[i]? = some located.2 := by
  simp [childrenAt, mem_childrenFrom]

theorem mem_preorder {address : Address} {root : Node} {located : Located} :
    located ∈ root.preorder address ↔
      ∃ path, located.1 = address ++ path ∧ root.part? path = some located.2 := by
  -- The step for a node, given its children; the constructors only say what the children are.
  have whole (node : Node) (each : ∀ child ∈ node.children, ∀ place, located ∈ child.preorder place ↔
      ∃ path, located.1 = place ++ path ∧ child.part? path = some located.2) (place : Address) :
      located ∈ node.preorder place ↔
        ∃ path, located.1 = place ++ path ∧ node.part? path = some located.2 := by
    rw [preorder_eq, List.mem_cons, List.mem_flatMap]
    constructor
    next =>
      rintro (rfl | ⟨⟨below, child⟩, among, mem⟩)
      next => exact ⟨[], by simp⟩
      next =>
        obtain ⟨i, rfl, found⟩ := mem_childrenAt.1 among
        obtain ⟨path, above, part⟩ := (each child (List.mem_of_getElem? found) _).1 mem
        simp only at found above
        exact ⟨i :: path, by simp [above], by simp [part?_cons, found, part]⟩
    next =>
      rintro ⟨path, above, found⟩
      cases path with
      | nil => exact .inl (Prod.ext (by simpa using above) (Option.some.inj found).symm)
      | cons i rest =>
        rw [part?_cons, Option.bind_eq_some_iff] at found
        obtain ⟨child, here, part⟩ := found
        refine .inr ⟨(place ++ [i], child), mem_childrenAt.2 ⟨i, rfl, here⟩, ?_⟩
        exact (each child (List.mem_of_getElem? here) _).2 ⟨rest, by simp [above], part⟩
  induction root generalizing address with
  | leaf l => exact whole _ (by simp [children]) _
  | name parens id => exact whole _ (by simp [children]) _
  | branch kind parens nodes ih =>
    exact whole (branch kind parens nodes) (fun child mem _ => ih child mem) _

theorem sizeAll_append (first rest : List Node) :
    size.sizeAll (first ++ rest) = size.sizeAll first + size.sizeAll rest := by
  induction first with
  | nil => simp [size.sizeAll]
  | cons node first ih => simp [size.sizeAll, ih, Nat.add_assoc]

theorem map_snd_childrenFrom (address : Address) (index : Nat) (nodes : List Node) :
    (childrenFrom address index nodes).map (·.2) = nodes := by
  induction nodes generalizing index with
  | nil => rfl
  | cons node rest ih => simp [childrenFrom, ih]

theorem size_eq (node : Node) : node.size = size.sizeAll node.children + 1 := by
  cases node <;> simp [size, size.sizeAll, children]

theorem visit_eq (fuel : Nat) (pending : List Located)
    (enough : size.sizeAll (pending.map (·.2)) ≤ fuel) :
    visit fuel pending = pending.flatMap fun located => located.2.preorder located.1 := by
  induction fuel generalizing pending with
  | zero =>
    cases pending with
    | nil => rfl
    | cons located rest =>
      simp only [List.map_cons, size.sizeAll, size_eq located.2] at enough
      omega
  | succ fuel ih =>
    cases pending with
    | nil => rfl
    | cons located rest =>
      obtain ⟨address, node⟩ := located
      simp only [List.map_cons, size.sizeAll, size_eq node] at enough
      rw [visit, ih]
      next => rw [List.flatMap_cons, preorder_eq, List.flatMap_append, List.cons_append]
      next =>
        rw [List.map_append, sizeAll_append, childrenAt, map_snd_childrenFrom]
        omega

/-- The walk lists the nodes of a tree from the top and from the left. -/
theorem walk_eq (root : Node) : root.walk = root.preorder [] := by
  simp [walk, visit_eq, size.sizeAll]

theorem mem_walk {root : Node} {located : Located} :
    located ∈ root.walk ↔ root.part? located.1 = some located.2 := by
  simp [walk_eq, mem_preorder]

theorem map_snd_preorder (first second : Address) (node : Node) :
    (node.preorder first).map (·.2) = (node.preorder second).map (·.2) := by
  induction node using inductChildren generalizing first second with | each node ih => ?_
  have below (address : Address) : ((node.childrenAt address).flatMap fun located =>
      located.2.preorder located.1).map (·.2) =
        node.children.flatMap fun child => (child.preorder []).map (·.2) := by
    rw [List.map_flatMap, ← map_snd_childrenFrom address 0 node.children, List.flatMap_map,
      List.flatMap_def, List.flatMap_def]
    refine congrArg List.flatten (List.map_congr_left fun located mem => ih _ ?_ _ _)
    rw [← map_snd_childrenFrom address 0 node.children]
    exact List.mem_map_of_mem mem
  rw [preorder_eq, preorder_eq second, List.map_cons, List.map_cons, below, below]

theorem nodes_eq (node : Node) : node.nodes = node :: node.children.flatMap nodes := by
  have whole (node : Node) : node.nodes = (node.preorder []).map (·.2) := by rw [nodes, walk_eq]
  have below : node.children = (node.childrenAt []).map (·.2) := (map_snd_childrenFrom [] 0 _).symm
  rw [whole, preorder_eq, List.map_cons, List.map_flatMap, below, List.flatMap_map, List.flatMap_def,
    List.flatMap_def]
  refine congrArg (fun below => node :: List.flatten below) (List.map_congr_left fun located _ => ?_)
  rw [whole, map_snd_preorder _ []]

theorem mem_nodes {root node : Node} : node ∈ root.nodes ↔ ∃ address, root.part? address = some node := by
  simp [nodes, mem_walk]

theorem wellFormed_part? {address : Address} {root node : Node} (wellFormed : root.wellFormed = true)
    (found : root.part? address = some node) : node.wellFormed = true := by
  induction address generalizing root with
  | nil => exact Option.some.inj found ▸ wellFormed
  | cons i rest ih =>
    rw [part?_cons, Option.bind_eq_some_iff] at found
    obtain ⟨child, here, part⟩ := found
    refine ih ?_ part
    cases root with
    | leaf l => simp [children] at here
    | name parens id => simp [children] at here
    | branch kind parens nodes =>
      exact ((wellFormed_branch _ _ _).1 wellFormed).2 child (List.mem_of_getElem? here)

/-- An expression holds no statement. -/
theorem isStatement_part? {address : Address} {node part : Node} (wellFormed : node.wellFormed = true)
    (expression : node.isStatement = false) (found : node.part? address = some part) :
    part.isStatement = false := by
  induction address generalizing node with
  | nil => exact Option.some.inj found ▸ expression
  | cons i rest ih =>
    rw [part?_cons, Option.bind_eq_some_iff] at found
    obtain ⟨child, here, found⟩ := found
    cases node with
    | leaf l => simp [children] at here
    | name parens id => simp [children] at here
    | branch kind parens nodes =>
      obtain ⟨fits, each⟩ := (wellFormed_branch _ _ _).1 wellFormed
      have mem := List.mem_of_getElem? here
      have plain : kind.isStatement = false := expression
      simp only [Shape.fits, plain, Bool.false_or, Bool.and_eq_true, List.all_eq_true,
        Bool.not_eq_true'] at fits
      exact ih (each child mem) (fits.1 child mem) found

end Graft.Node
