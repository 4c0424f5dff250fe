import Graft.Identifier

set_option autoImplicit false

/-!
Syntax trees that keep every character of their source. The leaves, read in order, are the text;
the branches say what it means. Branches whose parts have roles keep a fixed number of children,
and a part that the source leaves out is an empty `glue`.
-/
namespace Graft

inductive Leaf where
  | text (written : String)
  /-- The end of a line; `none` is the line end that the module uses first. -/
  | lineEnd (own : Option String)
  /-- The indentation of the enclosing block. -/
  | margin (written : String)
  deriving DecidableEq, Repr

inductive Kind where
  /-- Only leaves: blanks, comments, brackets and words of the language. -/
  | glue
  /-- Parts `[base, dot, name]` -/
  | member
  /-- Parts `[callee, opening, arguments, closing]` -/
  | call
  | arguments
  /-- Parts `[star, keyword, value, comma, gap]` -/
  | argument
  /-- Parts `[name, equals]` -/
  | keyword
  /-- Parts `[value, opening, items, closing]` -/
  | subscript
  | items
  | slice
  | starred
  | operation
  | yielding
  /-- Parts `[target, walrus, value]` -/
  | walrus
  /-- Parts `[opening, parameters, colon, body]` -/
  | lambda
  | tuple
  | list
  | set
  /-- Parts `[opening, entries, closing]` -/
  | dict
  | entries
  /-- Parts `[key, colon, value, comma]` -/
  | entry
  /-- Parts `[stars, value, comma]` -/
  | spread
  /-- Parts `[opening, item, words, target, word, iterable, conditions, inner, closing]` -/
  | comprehension
  /-- As `comprehension`; its brackets are its own parentheses. -/
  | generator
  /-- Parts `[words, target, word, iterable, conditions, inner]` -/
  | clause
  | conditions
  | item
  /-- One literal of a string or of bytes. -/
  | string
  /-- Parts `[left, gap, right]` -/
  | concatenation
  /-- A literal with replacement fields. -/
  | formatted
  | field
  | number
  | ellipsis
  | pattern
  | parameters
  /-- Parts `[stars, name, hint, default, comma]` -/
  | parameter
  | hint
  | default
  | typeParameters
  /-- Parts `[stars, name, bound, default, comma]` -/
  | typeParameter
  | bound
  /-- Parts `[word, target]` -/
  | binder
  /-- Parts `[value, binder, comma]` -/
  | withItem
  | expression
  /-- Parts `[target, …, value]` -/
  | assign
  /-- Parts `[target, equals]` -/
  | target
  /-- Parts `[target, hint, equals, value]` -/
  | annotated
  /-- Parts `[target, operator, value]` -/
  | augmented
  | deletion
  /-- Parts `[word, alias, …]` -/
  | importing
  /-- Parts `[word, dots, module, word, aliases, closing]` -/
  | importFrom
  | aliases
  /-- Parts `[name, binder, comma]` -/
  | alias
  | globalNames
  | outerNames
  /-- Parts `[word, name, type parameters, equals, value]` -/
  | typeAlias
  | plainStatement
  /-- Parts `[above, small statement, …, trail]` -/
  | line
  | suite
  /-- Parts `[trail, statement, …, footer]` -/
  | block
  /-- Parts `[decorators, words, name, type parameters, opening, parameters, closing, returns,
  colon, body]` -/
  | function
  | decorators
  /-- Parts `[decorators, word, name, type parameters, opening, arguments, closing, colon, body]` -/
  | classDef
  /-- Parts `[above, words, target, word, iterable, colon, body, otherwise]` -/
  | forLoop
  /-- Parts `[above, opening, body, clause, …]` -/
  | tryBlock
  /-- As `tryBlock`; its handlers take groups. -/
  | tryGroup
  | compound
  | clauseBlock
  | module
  deriving DecidableEq, Repr

/-- What is written around an expression. -/
structure Parens where
  opening : List Leaf := []
  closing : List Leaf := []
  deriving DecidableEq, Repr

inductive Node where
  | leaf (leaf : Leaf)
  | name (parens : Parens) (id : Identifier)
  | branch (kind : Kind) (parens : Parens) (children : List Node)

namespace Node

instance : Inhabited Node := ⟨.branch .glue {} []⟩

def text (written : String) : Node := .leaf (.text written)

def plain (kind : Kind) (children : List Node) : Node := .branch kind {} children

def glue (leaves : List Leaf) : Node := plain .glue (leaves.map .leaf)

/-- A part that the source leaves out. -/
def absent : Node := plain .glue []

def children : Node → List Node
  | .branch _ _ children => children
  | _ => []

def isA (kind : Kind) : Node → Bool
  | .branch k _ _ => k = kind
  | _ => false

def isName : Node → Bool
  | .name _ _ => true
  | _ => false

def isAbsent : Node → Bool
  | .branch .glue _ [] => true
  | _ => false

def parens : Node → Parens
  | .leaf _ => {}
  | .name parens _ => parens
  | .branch _ parens _ => parens

def wrapParens (opening closing : List Leaf) (parens : Parens) : Parens :=
  ⟨opening ++ parens.opening, parens.closing ++ closing⟩

/-- Writes brackets around an expression. -/
def wrap (opening closing : List Leaf) : Node → Node
  | .leaf l => .leaf l
  | .name parens id => .name (wrapParens opening closing parens) id
  | .branch kind parens children => .branch kind (wrapParens opening closing parens) children

def leaves : Node → List Leaf
  | .leaf l => [l]
  | .name parens id => parens.opening ++ .text id.text :: parens.closing
  | .branch _ parens children => parens.opening ++ leavesAll children ++ parens.closing
where
  leavesAll : List Node → List Leaf
    | [] => []
    | node :: rest => node.leaves ++ leavesAll rest

/-- The number of nodes of a tree. -/
def size : Node → Nat
  | .leaf _ => 1
  | .name _ _ => 1
  | .branch _ _ children => sizeAll children + 1
where
  sizeAll : List Node → Nat
    | [] => 0
    | node :: rest => node.size + sizeAll rest

end Node

/-- How leaves are written out. -/
structure Layout where
  lineEnd : String
  /-- Whether the indentation of blocks is written. -/
  margins : Bool
  deriving DecidableEq, Repr

def Leaf.render (layout : Layout) : Leaf → String
  | .text written => written
  | .lineEnd none => layout.lineEnd
  | .lineEnd (some own) => own
  | .margin written => if layout.margins then written else ""

def renderLeaves (layout : Layout) (leaves : List Leaf) : String :=
  String.join (leaves.map (Leaf.render layout))

/-- A node stands alone at the left margin, whatever block it was cut from. -/
def Layout.alone : Layout := ⟨"\n", false⟩

def Node.source (node : Node) : String :=
  renderLeaves .alone node.leaves

end Graft
