import Graft.Dotted
import Graft.Tree.Basic

set_option autoImplicit false

/-!
Names and chains of attributes, and the dotted texts they spell.
-/
namespace Graft.Node

/-- The dotted text of a name or of a chain of attributes, and nothing for other nodes. -/
def fullName : Node → String
  | .name _ id => id.text
  | .branch .member _ [base, _, .name _ id] =>
    let base := base.fullName
    if base = "" then "" else base ++ "." ++ id.text
  | _ => ""

def ofIdentifier (text : String) : Except Identifier.Fault Node :=
  (Identifier.ofString text).map (.name {})

def attributeOf (base : Node) (text : String) : Except Identifier.Fault Node :=
  (Identifier.ofString text).map fun id =>
    .plain .member [base, .glue [.text "."], .name {} id]

/-- The chain of attributes that spells some segments. -/
def ofSegments : List String → Except Identifier.Fault Node
  | [] => .error .empty
  | first :: rest => do
    let base ← ofIdentifier first
    rest.foldlM attributeOf base

def ofDotted (text : String) : Except Identifier.Fault Node :=
  ofSegments (Dotted.segments text)

end Graft.Node
