import Graft.Tree.Basic

set_option autoImplicit false

/-!
Walks over a tree. A node's address lists the child to take at each step from the root. `visit`
works through a list of pending nodes; `preorder` follows the shape of the tree.
-/
namespace Graft

abbrev Address := List Nat

abbrev Located := Address × Node

namespace Node

def childrenFrom (address : Address) : Nat → List Node → List Located
  | _, [] => []
  | i, child :: rest => (address ++ [i], child) :: childrenFrom address (i + 1) rest

def childrenAt (address : Address) (node : Node) : List Located :=
  childrenFrom address 0 node.children

def preorder (address : Address) : Node → List Located
  | .leaf l => [(address, .leaf l)]
  | .name parens id => [(address, .name parens id)]
  | .branch kind parens children =>
    (address, .branch kind parens children) :: preorderFrom address 0 children
where
  preorderFrom (address : Address) : Nat → List Node → List Located
    | _, [] => []
    | i, child :: rest => child.preorder (address ++ [i]) ++ preorderFrom address (i + 1) rest

/-- Takes the first pending node, and puts its children before the others. -/
def visit : Nat → List Located → List Located
  | 0, _ => []
  | _, [] => []
  | fuel + 1, (address, node) :: pending =>
    (address, node) :: visit fuel (node.childrenAt address ++ pending)

/-- All nodes of a tree in the order of its text. -/
def walk (root : Node) : List Located :=
  visit root.size [([], root)]

def nodes (root : Node) : List Node :=
  root.walk.map (·.2)

/-- Every identifier that is spelled in a tree. -/
def identifiers (root : Node) : List String :=
  root.nodes.filterMap fun
    | .name _ id => some id.text
    | _ => none

/-- The leaves that are written before the part of a tree at `address`, without the brackets
around that part. -/
def leavesBefore : Address → Node → List Leaf
  | [], node => node.parens.opening
  | i :: rest, node =>
    node.parens.opening ++ leaves.leavesAll (node.children.take i) ++
      match node.children[i]? with
      | some child => child.leavesBefore rest
      | none => []

end Node

/-- A place in a text: lines count from 1, columns from 0. -/
structure Position where
  line : Nat
  column : Nat
  deriving DecidableEq, Repr

namespace Position

def start : Position := ⟨1, 0⟩

/-- The place after a text. A line ends in a line feed, a carriage return, or both. -/
def advance : Position → List Char → Position
  | place, [] => place
  | place, '\r' :: '\n' :: rest => advance ⟨place.line + 1, 0⟩ rest
  | place, c :: rest =>
    if c = '\n' ∨ c = '\r' then advance ⟨place.line + 1, 0⟩ rest
    else advance ⟨place.line, place.column + 1⟩ rest

end Position

end Graft
