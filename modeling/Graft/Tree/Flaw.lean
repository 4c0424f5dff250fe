import Graft.Literal
import Graft.Tree.Basic

set_option autoImplicit false

/-!
Rules on trees that the grammar leaves open.
-/
namespace Graft

inductive Flaw where
  /-- A literal of bytes beside a literal of text. -/
  | mixedLiterals
  /-- A handler that catches everything, with another one after it. -/
  | earlyCatchAll
  deriving DecidableEq, Repr

def Flaw.message : Flaw → String
  | .mixedLiterals => "Cannot concatenate string and bytes."
  | .earlyCatchAll => "The bare except: handler must be the last one."

namespace Node

/-- Literals side by side are of one sort, so the first one tells. -/
def isBytes : Node → Bool
  | .branch .string _ [.leaf (.text written)] => (Literal.letters written).contains 'b'
  | .branch .concatenation _ [first, _, _] => first.isBytes
  | _ => false

def isCatchAll : Node → Bool
  | .branch .clauseBlock _ [_, _, _] => true
  | _ => false

def ownFlaw? : Node → Option Flaw
  | .branch .concatenation _ [left, _, right] =>
    if left.isBytes = right.isBytes then none else some .mixedLiterals
  | .branch .tryBlock _ (_ :: _ :: _ :: clauses) =>
    let handlers := clauses.dropLast.dropLast
    if handlers.dropLast.any isCatchAll then some .earlyCatchAll else none
  | _ => none

/-- The first flaw of a tree. The parts of a node come before the node. -/
def flaw? : Node → Option Flaw
  | .branch kind parens children => flawAmong children <|> ownFlaw? (.branch kind parens children)
  | _ => none
where
  flawAmong : List Node → Option Flaw
    | [] => none
    | node :: rest => node.flaw? <|> flawAmong rest

end Node

end Graft
