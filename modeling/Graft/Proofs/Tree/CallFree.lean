import Graft.Proofs.Tree.Address

set_option autoImplicit false

/-!
Parts of a tree without calls: blanks and words, keywords, dotted names and what imports bind.
-/
namespace Graft.Node

/-- No part of the node is a call. -/
def IsCallFree (node : Node) : Prop :=
  ∀ path part, node.part? path = some part → part.isA .call = false

theorem isCallFree_branch {kind : Kind} (other : kind ≠ .call) (parens : Parens) {nodes : List Node}
    (each : ∀ child ∈ nodes, child.IsCallFree) : (branch kind parens nodes).IsCallFree := by
  intro path part found
  cases path with
  | nil => exact Option.some.inj found ▸ by simp [isA, other]
  | cons i rest =>
    rw [part?_cons, Option.bind_eq_some_iff] at found
    obtain ⟨child, here, within⟩ := found
    exact each child (List.mem_of_getElem? here) rest part within

theorem isCallFree_of_childless {node : Node} (other : node.isA .call = false)
    (none : node.children = []) : node.IsCallFree := by
  intro path part found
  cases path with
  | nil => exact Option.some.inj found ▸ other
  | cons i rest => simp [part?_cons, none] at found

theorem isCallFree_of_isAbsent {node : Node} (absent : node.isAbsent = true) : node.IsCallFree := by
  refine isCallFree_of_childless ?_ (children_of_isAbsent absent)
  unfold isAbsent at absent
  split at absent
  next => rfl
  next => exact absurd absent (by simp)

theorem isCallFree_of_isName {node : Node} (named : node.isName = true) : node.IsCallFree := by
  obtain ⟨parens, id, rfl⟩ := exists_name named
  exact isCallFree_of_childless rfl rfl

theorem isCallFree_of_isLeaf {node : Node} (leaf : node.isLeaf = true) : node.IsCallFree := by
  cases node with
  | leaf l => exact isCallFree_of_childless rfl rfl
  | name parens id => exact absurd leaf (by simp [isLeaf])
  | branch kind parens nodes => exact absurd leaf (by simp [isLeaf])

theorem isCallFree_of_glue {node : Node} (wellFormed : node.wellFormed = true)
    (glue : node.isA .glue = true) : node.IsCallFree := by
  obtain ⟨parens, nodes, rfl⟩ := exists_branch glue
  have roles := Shape.hasRoles_of_fits ((wellFormed_branch _ _ _).1 wellFormed).1
  simp only [Shape.hasRoles, List.all_eq_true] at roles
  exact isCallFree_branch (by decide) parens fun child mem => isCallFree_of_isLeaf (roles child mem)

theorem isCallFree_of_isDotted {node : Node} (wellFormed : node.wellFormed = true)
    (dotted : node.isDotted = true) : node.IsCallFree := by
  induction node with
  | leaf l => exact absurd dotted (by simp [isDotted])
  | name parens id => exact isCallFree_of_isName rfl
  | branch kind parens children ih =>
    unfold isDotted at dotted
    split at dotted
    next same => exact absurd same (by simp)
    next base dot around id same =>
      injection same with member brackets parts
      subst member parts
      have each := ((wellFormed_branch _ _ _).1 wellFormed).2
      rw [Bool.and_eq_true] at dotted
      refine isCallFree_branch (by decide) parens ?_
      simp only [List.mem_cons, List.not_mem_nil, or_false, forall_eq_or_imp, forall_eq]
      exact ⟨ih base (by simp) (each base (by simp)) dotted.1,
        isCallFree_of_glue (each dot (by simp)) dotted.2, isCallFree_of_isName rfl⟩
    next => exact absurd dotted (by simp)

theorem isCallFree_of_isNameBinder {node : Node} (wellFormed : node.wellFormed = true)
    (binder : node.isNameBinder = true) : node.IsCallFree := by
  unfold isNameBinder at binder
  split at binder
  next parens word around id =>
    refine isCallFree_branch (by decide) parens ?_
    simp only [List.mem_cons, List.not_mem_nil, or_false, forall_eq_or_imp, forall_eq]
    exact ⟨isCallFree_of_glue (((wellFormed_branch _ _ _).1 wellFormed).2 word (by simp)) binder,
      isCallFree_of_isName rfl⟩
  next => exact absurd binder (by simp)

end Graft.Node

namespace Graft

open Node

/-- Kinds of nodes that hold no calls. -/
def Kind.isQuiet : Kind → Bool
  | .glue | .keyword | .importing | .importFrom | .aliases | .alias => true
  | _ => false

theorem Node.isA_alias_of_isNameAlias {node : Node} (named : node.isNameAlias = true) :
    node.isA .alias = true := by
  unfold isNameAlias at named
  split at named
  next => rfl
  next => exact absurd named (by simp)

theorem Shape.isCallFree_of_hasRoles {kind : Kind} (quiet : kind.isQuiet = true) {parts : List Node}
    (wellFormed : ∀ part ∈ parts, part.wellFormed = true)
    (inner : ∀ part ∈ parts, ∀ kind : Kind, kind.isQuiet = true → part.isA kind = true → part.IsCallFree)
    (roles : hasRoles kind parts = true) : ∀ part ∈ parts, part.IsCallFree := by
  have glue {part : Node} (mem : part ∈ parts) (is : part.isA .glue = true) : part.IsCallFree :=
    inner part mem .glue rfl is
  cases kind
  case glue =>
    simp only [hasRoles, List.all_eq_true] at roles
    exact fun part mem => isCallFree_of_isLeaf (roles part mem)
  case keyword =>
    obtain ⟨name, equals, rfl, named, between, -⟩ := hasRoles_keyword roles
    simp only [List.mem_cons, List.not_mem_nil, or_false, forall_eq_or_imp, forall_eq]
    exact ⟨isCallFree_of_isName named, glue (by simp) between⟩
  case importing =>
    cases parts with
    | nil => simp
    | cons word aliases =>
      simp only [hasRoles, Bool.and_eq_true, List.all_eq_true] at roles
      simp only [List.mem_cons, forall_eq_or_imp]
      exact ⟨glue (by simp) roles.1,
        fun part mem => inner part (by simp [mem]) .alias rfl (roles.2 part mem)⟩
  case importFrom =>
    obtain ⟨word, dots, source, between, aliases, closing, rfl, words, points, sources, betweens,
      group, closings⟩ := hasRoles_importFrom roles
    simp only [List.mem_cons, List.not_mem_nil, or_false, forall_eq_or_imp, forall_eq]
    exact ⟨glue (by simp) words, glue (by simp) points,
      sources.elim isCallFree_of_isAbsent (isCallFree_of_isDotted (wellFormed source (by simp))),
      glue (by simp) betweens,
      group.elim isCallFree_of_isAbsent (inner aliases (by simp) .aliases rfl),
      glue (by simp) closings⟩
  case aliases =>
    simp only [hasRoles, List.all_eq_true] at roles
    exact fun part mem => inner part mem .alias rfl (isA_alias_of_isNameAlias (roles part mem))
  all_goals try exact absurd quiet (by decide)
  -- what is left is one name of an import
  next =>
    obtain ⟨imported, binder, comma, rfl, dotted, binds, commas⟩ := hasRoles_alias roles
    simp only [List.mem_cons, List.not_mem_nil, or_false, forall_eq_or_imp, forall_eq]
    exact ⟨isCallFree_of_isDotted (wellFormed imported (by simp)) dotted,
      binds.elim isCallFree_of_isAbsent (isCallFree_of_isNameBinder (wellFormed binder (by simp))),
      glue (by simp) commas⟩

theorem Node.isCallFree_of_isQuiet {node : Node} (wellFormed : node.wellFormed = true) {kind : Kind}
    (quiet : kind.isQuiet = true) (is : node.isA kind = true) : node.IsCallFree := by
  induction node generalizing kind with
  | leaf l => exact absurd is (by simp [isA])
  | name parens id => exact absurd is (by simp [isA])
  | branch found parens children ih =>
    obtain rfl : found = kind := by simpa [isA] using is
    obtain ⟨fits, each⟩ := (wellFormed_branch _ _ _).1 wellFormed
    refine isCallFree_branch (by rintro rfl; exact absurd quiet (by decide)) parens ?_
    exact Shape.isCallFree_of_hasRoles quiet each (fun part mem _ => ih part mem (each part mem))
      (Shape.hasRoles_of_fits fits)

end Graft
