import Graft.Proofs.Grammar.Yields
import Graft.Proofs.Tree.Address

set_option autoImplicit false

/-!
Parts of statements, as the rules of expressions and patterns build them: well-formed nodes that are
no statements and keep the parentheses of their own generators. Their arguments have no gap where a comma
has taken it.
-/
namespace Graft

/-- A comma takes the gap after it. -/
def Argument.IsTidy (argument : Argument) : Prop := argument.comma = [] ∨ argument.gap = []

namespace Node

def IsTidy (node : Node) : Prop := ∀ path part argument, node.part? path = some part →
  Argument.ofNode? part = some argument → argument.IsTidy

theorem isTidy_of_own {node : Node}
    (own : ∀ argument, Argument.ofNode? node = some argument → argument.IsTidy)
    (each : ∀ child ∈ node.children, child.IsTidy) : node.IsTidy := by
  intro path part argument found read
  cases path with
  | nil => exact own argument (Option.some.inj found ▸ read)
  | cons i rest =>
    rw [part?_cons, Option.bind_eq_some_iff] at found
    obtain ⟨child, here, found⟩ := found
    exact each child (List.mem_of_getElem? here) rest part argument found read

theorem isTidy_branch {kind : Kind} (other : kind ≠ .argument) (parens : Parens) {children : List Node}
    (each : ∀ child ∈ children, child.IsTidy) : (branch kind parens children).IsTidy := by
  refine isTidy_of_own (fun argument read => ?_) each
  unfold Argument.ofNode? at read
  split at read
  next same => exact absurd (by injection same) other
  next => exact absurd read (by simp)

theorem isTidy_leaf (l : Leaf) : (leaf l).IsTidy :=
  isTidy_of_own (fun _ read => absurd read (by simp [Argument.ofNode?])) (by simp [children])

theorem isTidy_name (parens : Parens) (id : Identifier) : (name parens id).IsTidy :=
  isTidy_of_own (fun _ read => absurd read (by simp [Argument.ofNode?])) (by simp [children])

theorem IsTidy.part? {node part : Node} (tidy : node.IsTidy) {path : Address}
    (found : node.part? path = some part) : part.IsTidy :=
  fun below inner argument within => tidy (path ++ below) inner argument
    (by rw [part?_append, found, Option.bind_some, within])

theorem IsTidy.wrap {node : Node} (tidy : node.IsTidy) (opening closing : List Leaf) :
    (node.wrap opening closing).IsTidy := by
  intro path part argument found read
  cases path with
  | nil =>
    obtain rfl := Option.some.inj found
    refine tidy [] node argument rfl ?_
    cases node with
    | leaf l => exact read
    | name parens id => exact absurd read (by simp [Node.wrap, Argument.ofNode?])
    | branch kind parens children =>
      unfold Argument.ofNode? at read
      split at read
      next same =>
        simp only [Node.wrap, branch.injEq] at same
        obtain ⟨rfl, -, rfl⟩ := same
        exact read
      next => exact absurd read (by simp)
  | cons i rest =>
    refine tidy (i :: rest) part argument ?_ read
    cases node with
    | leaf l => exact found
    | name parens id => exact found
    | branch kind parens children => exact found

end Node

structure Node.Part (node : Node) : Prop where
  wellFormed : node.wellFormed = true
  isStatement : node.isStatement = false
  isBareGenerator : node.isBareGenerator = false
  isTidy : node.IsTidy

/-- Kinds of parts whose own parts may be any. -/
def Kind.isSimple : Kind → Bool
  | .glue | .call | .arguments | .argument | .keyword | .aliases | .alias | .generator => false
  | kind => !kind.isStatement

namespace Node.Part

theorem apart {nodes : List Node} (parts : ∀ node ∈ nodes, node.Part) :
    nodes.all (!·.isStatement) = true := by
  simp only [List.all_eq_true, Bool.not_eq_true']
  exact fun node mem => (parts node mem).isStatement

theorem branch {kind : Kind} {parens : Parens} {children : List Node}
    (simple : kind.isSimple = true) (parts : ∀ child ∈ children, child.Part) :
    (Node.branch kind parens children).Part := by
  refine ⟨(wellFormed_branch _ _ _).2 ⟨?_, fun child mem => (parts child mem).wellFormed⟩, ?_, ?_,
    isTidy_branch (by rintro rfl; exact absurd simple (by decide)) parens fun child mem =>
      (parts child mem).isTidy⟩
  next => cases kind <;> first | exact absurd simple (by decide) | simp [Shape.fits, Shape.hasRoles, apart parts]
  next => cases kind <;> first | exact absurd simple (by decide) | rfl
  next => cases kind <;> first | exact absurd simple (by decide) | rfl

theorem plain {kind : Kind} {children : List Node} (simple : kind.isSimple = true)
    (parts : ∀ child ∈ children, child.Part) : (Node.plain kind children).Part :=
  branch simple parts

@[simp] theorem leaf (l : Leaf) : (Node.leaf l).Part := ⟨rfl, rfl, rfl, isTidy_leaf l⟩

@[simp] theorem text (written : String) : (Node.text written).Part := leaf _

@[simp] theorem name (parens : Parens) (id : Identifier) : (Node.name parens id).Part :=
  ⟨rfl, rfl, rfl, isTidy_name parens id⟩

@[simp] theorem glue (leaves : List Leaf) : (Node.glue leaves).Part := by
  refine ⟨(wellFormed_branch _ _ _).2 ⟨?_, ?_⟩, rfl, rfl, isTidy_branch (by decide) {} ?_⟩
  next => simp [Shape.fits, Shape.hasRoles, Node.isStatement, Node.isLeaf]
  next => simp [Node.wellFormed]
  next => simp [isTidy_leaf]

@[simp] theorem absent : Node.absent.Part := glue []

theorem wrapped {node : Node} {opening closing : List Leaf} (good : node.wellFormed = true)
    (part : node.isStatement = false) (tidy : node.IsTidy) (around : opening ≠ []) :
    (node.wrap opening closing).Part := by
  cases node with
  | leaf l => exact leaf l
  | name parens id => exact name _ id
  | branch kind parens children =>
    exact ⟨good, part, by simp [Node.isBareGenerator, wrap, wrapParens, Node.parens, around], tidy.wrap opening closing⟩

theorem importItem {name binder : Node} {last : List Leaf} (named : name.Part ∧ name.isDotted = true)
    (bound : binder.Part ∧ (binder.isAbsent = true ∨ binder.isNameBinder = true)) :
    (Node.plain .alias [name, binder, .glue last]).Part := by
  refine ⟨(Node.wellFormed_branch _ _ _).2 ⟨?_, ?_⟩, rfl, rfl, isTidy_branch (by decide) {} ?_⟩
  next =>
    have comma : (Node.glue last).isA .glue = true := rfl
    simp [Shape.fits, Shape.hasRoles, named.2, bound.2, named.1.isStatement, bound.1.isStatement,
      Node.Part.isStatement, comma]
  next => simp [named.1.wellFormed, bound.1.wellFormed, Node.Part.wellFormed]
  next => simp [named.1.isTidy, bound.1.isTidy, Node.Part.isTidy]

end Node.Part

end Graft
