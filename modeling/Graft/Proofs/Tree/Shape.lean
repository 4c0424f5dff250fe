import Graft.Tree.Call

set_option autoImplicit false

/-!
The shape of trees. A tree is well formed if the parts of its calls, arguments and imports have the
places that the readers of these rely on, if the arguments of its calls stand in an order that the
grammar allows, and if no expression holds a statement.
-/
namespace Graft

namespace Node

@[elab_as_elim, induction_eliminator]
theorem induct {motive : Node → Prop}
    (leaf : ∀ l, motive (.leaf l))
    (name : ∀ parens id, motive (.name parens id))
    (branch : ∀ kind parens children, (∀ child ∈ children, motive child) →
      motive (.branch kind parens children)) :
    ∀ node, motive node
  | .leaf l => leaf l
  | .name parens id => name parens id
  | .branch kind parens children =>
    branch kind parens children fun child _ => induct leaf name branch child

def isLeaf : Node → Bool
  | .leaf _ => true
  | _ => false

@[simp] theorem leaves_glue (written : List Leaf) : (glue written).leaves = written := by
  have all : leaves.leavesAll (written.map .leaf) = written := by
    induction written with
    | nil => rfl
    | cons leaf rest ih => simp [leaves.leavesAll, leaves, ih]
  simp [glue, plain, leaves, all]

end Node

/-- Statements, and what statements are gathered in. -/
def Kind.isStatement : Kind → Bool
  | .expression | .assign | .annotated | .augmented | .deletion | .importing | .importFrom
  | .globalNames | .outerNames | .typeAlias | .plainStatement | .line | .suite | .block | .function
  | .classDef | .forLoop | .tryBlock | .tryGroup | .compound | .clauseBlock | .module => true
  | _ => false

/-- Statements whose parts are taken one after the other. -/
def Kind.isBundle : Kind → Bool
  | .module | .line | .block | .tryBlock => true
  | _ => false

namespace Node

def isStatement : Node → Bool
  | .branch kind _ _ => kind.isStatement
  | _ => false

/-- A generator that borrows its parentheses from a call. -/
def isBareGenerator (node : Node) : Bool :=
  node.isA .generator && node.parens.opening.isEmpty

/-- A name, or attributes of one. -/
def isDotted : Node → Bool
  | .name _ _ => true
  | .branch .member _ [base, dot, .name _ _] => base.isDotted && dot.isA .glue
  | _ => false

def isNameBinder : Node → Bool
  | .branch .binder _ [word, .name _ _] => word.isA .glue
  | _ => false

def isNameAlias : Node → Bool
  | .branch .alias _ (.name _ _ :: _) => true
  | _ => false

/-- A node with no brackets around it. -/
def isBare (node : Node) : Bool :=
  node.parens.opening.isEmpty && node.parens.closing.isEmpty

end Node

namespace Argument

/-- An argument that stands for a mapping of keywords. -/
def isMapping (argument : Argument) : Bool :=
  argument.star.head? == some (.text "**")

/-- Nothing stands alone after a keyword or a mapping, and no sequence is spread after a mapping. -/
def mayPrecede (first later : Argument) : Bool :=
  (!later.isPositional || first.keyword.isNone && !first.isMapping) &&
    (!later.isStarred || later.isMapping || !first.isMapping)

def areOrdered : List Argument → Bool
  | [] => true
  | first :: rest => rest.all first.mayPrecede && areOrdered rest

def isGenerator (argument : Argument) : Bool := argument.value.isBareGenerator

/-- A list of arguments that the grammar allows: they are in order, and a generator without its own
parentheses is the only one, with no comma after it. -/
def areGrammatical (arguments : List Argument) : Bool :=
  areOrdered arguments &&
    match arguments with
    | [only] => !only.isGenerator || only.isPositional && only.comma.isEmpty
    | several => several.all fun argument => !argument.isGenerator

end Argument

/-- All arguments but the last own a comma. -/
def Argument.areSeparated (arguments : List Argument) : Bool :=
  arguments.dropLast.all fun argument => !argument.comma.isEmpty

/-- Whether the parts of a node have their places. -/
def Shape.hasRoles : Kind → List Node → Bool
  | .glue, parts => parts.all Node.isLeaf
  | .call, [_, opening, arguments, closing] =>
    opening.isA .glue && arguments.isA .arguments && closing.isA .glue &&
      [opening, arguments, closing].all Node.isBare
  | .call, _ => false
  | .arguments, parts =>
    parts.all (·.isA .argument) && Argument.areGrammatical (parts.filterMap Argument.ofNode?) &&
      (parts.all Node.isBare && Argument.areSeparated (parts.filterMap Argument.ofNode?))
  | .argument, [star, keyword, _, comma, gap] =>
    star.isA .glue && (keyword.isAbsent || keyword.isA .keyword) && comma.isA .glue &&
      gap.isA .glue && [star, keyword, comma, gap].all Node.isBare
  | .argument, _ => false
  | .keyword, [name, equals] =>
    name.isName && equals.isA .glue && [name, equals].all Node.isBare
  | .keyword, _ => false
  | .importing, word :: aliases => word.isA .glue && aliases.all (·.isA .alias)
  | .importFrom, [word, dots, module, between, aliases, closing] =>
    word.isA .glue && dots.isA .glue && (module.isAbsent || module.isDotted) &&
      between.isA .glue && (aliases.isAbsent || aliases.isA .aliases) && closing.isA .glue
  | .importFrom, _ => false
  | .aliases, parts => parts.all Node.isNameAlias
  | .alias, [imported, binder, comma] =>
    imported.isDotted && (binder.isAbsent || binder.isNameBinder) && comma.isA .glue
  | .alias, _ => false
  | _, _ => true

namespace Shape

attribute [local simp] hasRoles in
theorem hasRoles_call {parts : List Node} (roles : hasRoles .call parts = true) :
    ∃ callee opening arguments closing, parts = [callee, opening, arguments, closing] ∧
      opening.isA .glue = true ∧ arguments.isA .arguments = true ∧ closing.isA .glue = true ∧
        [opening, arguments, closing].all Node.isBare = true :=
  match parts, roles with
  | [_, _, _, _], roles => by
    simp only [hasRoles, Bool.and_eq_true] at roles
    obtain ⟨⟨⟨opening, arguments⟩, closing⟩, bare⟩ := roles
    exact ⟨_, _, _, _, rfl, opening, arguments, closing, bare⟩
  | [], roles | [_], roles | [_, _], roles | [_, _, _], roles | _ :: _ :: _ :: _ :: _ :: _, roles => by
    simp at roles

theorem hasRoles_argument {parts : List Node} (roles : hasRoles .argument parts = true) :
    ∃ star keyword value comma gap, parts = [star, keyword, value, comma, gap] ∧
      star.isA .glue = true ∧ (keyword.isAbsent = true ∨ keyword.isA .keyword = true) ∧
        comma.isA .glue = true ∧ gap.isA .glue = true ∧
          [star, keyword, comma, gap].all Node.isBare = true :=
  match parts, roles with
  | [_, _, _, _, _], roles => by
    simp only [hasRoles, Bool.and_eq_true, Bool.or_eq_true] at roles
    obtain ⟨⟨⟨⟨star, keyword⟩, comma⟩, gap⟩, bare⟩ := roles
    exact ⟨_, _, _, _, _, rfl, star, keyword, comma, gap, bare⟩
  | [], roles | [_], roles | [_, _], roles | [_, _, _], roles | [_, _, _, _], roles
  | _ :: _ :: _ :: _ :: _ :: _ :: _, roles => by
    simp [hasRoles] at roles

theorem hasRoles_keyword {parts : List Node} (roles : hasRoles .keyword parts = true) :
    ∃ name equals, parts = [name, equals] ∧ name.isName = true ∧ equals.isA .glue = true ∧
      [name, equals].all Node.isBare = true :=
  match parts, roles with
  | [_, _], roles => by
    simp only [hasRoles, Bool.and_eq_true] at roles
    exact ⟨_, _, rfl, roles.1.1, roles.1.2, roles.2⟩
  | [], roles | [_], roles | _ :: _ :: _ :: _, roles => by simp [hasRoles] at roles

theorem hasRoles_importFrom {parts : List Node} (roles : hasRoles .importFrom parts = true) :
    ∃ word dots source between aliases closing,
      parts = [word, dots, source, between, aliases, closing] ∧ word.isA .glue = true ∧
        dots.isA .glue = true ∧ (source.isAbsent = true ∨ source.isDotted = true) ∧
          between.isA .glue = true ∧ (aliases.isAbsent = true ∨ aliases.isA .aliases = true) ∧
            closing.isA .glue = true :=
  match parts, roles with
  | [_, _, _, _, _, _], roles => by
    simp only [hasRoles, Bool.and_eq_true, Bool.or_eq_true] at roles
    obtain ⟨⟨⟨⟨⟨word, dots⟩, source⟩, between⟩, aliases⟩, closing⟩ := roles
    exact ⟨_, _, _, _, _, _, rfl, word, dots, source, between, aliases, closing⟩
  | [], roles | [_], roles | [_, _], roles | [_, _, _], roles | [_, _, _, _], roles
  | [_, _, _, _, _], roles | _ :: _ :: _ :: _ :: _ :: _ :: _ :: _, roles => by
    simp [hasRoles] at roles

theorem hasRoles_alias {parts : List Node} (roles : hasRoles .alias parts = true) :
    ∃ imported binder comma, parts = [imported, binder, comma] ∧ imported.isDotted = true ∧
      (binder.isAbsent = true ∨ binder.isNameBinder = true) ∧ comma.isA .glue = true :=
  match parts, roles with
  | [_, _, _], roles => by
    simp only [hasRoles, Bool.and_eq_true, Bool.or_eq_true] at roles
    exact ⟨_, _, _, rfl, roles.1.1, roles.1.2, roles.2⟩
  | [], roles | [_], roles | [_, _], roles | _ :: _ :: _ :: _ :: _, roles => by
    simp [hasRoles] at roles

end Shape

def Shape.fits (kind : Kind) (parts : List Node) : Bool :=
  (kind.isStatement || parts.all (!·.isStatement)) && hasRoles kind parts

theorem Shape.hasRoles_of_fits {kind : Kind} {parts : List Node} (fits : fits kind parts = true) :
    hasRoles kind parts = true :=
  (Bool.and_eq_true _ _ ▸ fits).2

namespace Node

theorem exists_branch {kind : Kind} {node : Node} (is : node.isA kind = true) :
    ∃ parens parts, node = .branch kind parens parts := by
  cases node with
  | branch found parens parts => exact ⟨parens, parts, by simpa [isA] using is⟩
  | leaf l => exact absurd is (by simp [isA])
  | name parens id => exact absurd is (by simp [isA])

theorem exists_name {node : Node} (is : node.isName = true) : ∃ parens id, node = .name parens id := by
  cases node with
  | name parens id => exact ⟨parens, id, rfl⟩
  | leaf l => exact absurd is (by simp [isName])
  | branch kind parens parts => exact absurd is (by simp [isName])

theorem children_of_isAbsent {node : Node} (absent : node.isAbsent = true) : node.children = [] := by
  unfold isAbsent at absent
  split at absent
  next => rfl
  next => exact absurd absent (by simp)

def wellFormed : Node → Bool
  | .leaf _ => true
  | .name _ _ => true
  | .branch kind _ children => Shape.fits kind children && areWellFormed children
where
  areWellFormed : List Node → Bool
    | [] => true
    | node :: rest => node.wellFormed && areWellFormed rest

theorem areWellFormed_iff (nodes : List Node) :
    wellFormed.areWellFormed nodes = true ↔ ∀ node ∈ nodes, node.wellFormed = true := by
  induction nodes with
  | nil => simp [wellFormed.areWellFormed]
  | cons node rest ih => simp [wellFormed.areWellFormed, ih]

theorem wellFormed_branch (kind : Kind) (parens : Parens) (children : List Node) :
    (Node.branch kind parens children).wellFormed = true ↔
      Shape.fits kind children = true ∧ ∀ child ∈ children, child.wellFormed = true := by
  simp [wellFormed, areWellFormed_iff]

theorem map_leaf_leavesAll {parts : List Node} (each : ∀ part ∈ parts, part.isLeaf = true) :
    (leaves.leavesAll parts).map leaf = parts := by
  induction parts with
  | nil => rfl
  | cons part rest ih =>
    cases part with
    | leaf l =>
      rw [leaves.leavesAll, leaves, List.singleton_append, List.map_cons,
        ih fun other mem => each other (List.mem_cons_of_mem _ mem)]
    | name parens id => exact absurd (each _ List.mem_cons_self) (by simp [isLeaf])
    | branch kind parens children => exact absurd (each _ List.mem_cons_self) (by simp [isLeaf])

theorem parens_of_isBare {node : Node} (bare : node.isBare = true) : node.parens = {} := by
  simp only [isBare, Bool.and_eq_true, List.isEmpty_iff] at bare
  generalize node.parens = parens at bare
  obtain ⟨opening, closing⟩ := parens
  simp_all

theorem glue_leaves {node : Node} (wellFormed : node.wellFormed = true) (is : node.isA .glue = true)
    (bare : node.isBare = true) : glue node.leaves = node := by
  obtain ⟨parens, parts, rfl⟩ := exists_branch is
  obtain rfl : parens = {} := parens_of_isBare bare
  have each := Shape.hasRoles_of_fits ((wellFormed_branch _ _ _).1 wellFormed).1
  have written := map_leaf_leavesAll (List.all_eq_true.1 each)
  simp [glue, plain, leaves, written]

end Node

end Graft
