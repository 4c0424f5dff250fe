import Graft.Tree.Basic

set_option autoImplicit false

/-!
Which expressions can be assigned to. Targets are read as expressions and judged by their shape.
-/
namespace Graft.Node

/-- Words for constants, which cannot be assigned to. -/
def constants : List String := ["None", "True", "False"]

def isVariable (id : Identifier) : Bool := !constants.contains id.text

/-- A name, an attribute or an item. -/
def isSingleTarget : Node → Bool
  | .name _ id => isVariable id
  | .branch .member _ _ => true
  | .branch .subscript _ _ => true
  | _ => false

/-- A target of an assignment; `starred` allows a star in front. -/
def isTarget (starred : Bool) : Node → Bool
  | .leaf _ => false
  | .name _ id => isVariable id
  | .branch .member _ _ => true
  | .branch .subscript _ _ => true
  | .branch .tuple _ parts => areTargets parts
  | .branch .list _ parts => areTargets parts
  | .branch .starred _ [_, inner] => starred && inner.isTarget false
  | .branch _ _ _ => false
where
  areTargets : List Node → Bool
    | [] => true
    | .branch .glue _ _ :: rest => areTargets rest
    | part :: rest => part.isTarget true && areTargets rest

/-- What can be deleted. -/
def isDeletable : Node → Bool
  | .leaf _ => false
  | .name _ id => isVariable id
  | .branch .member _ _ => true
  | .branch .subscript _ _ => true
  | .branch .tuple _ parts => areDeletable parts
  | .branch .list _ parts => areDeletable parts
  | .branch _ _ _ => false
where
  areDeletable : List Node → Bool
    | [] => true
    | .branch .glue _ _ :: rest => areDeletable rest
    | part :: rest => part.isDeletable && areDeletable rest

end Graft.Node
