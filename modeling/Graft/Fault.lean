import Graft.Identifier
import Graft.Literal
import Graft.Tree.Flaw

set_option autoImplicit false

/-!
Causes that end an operation without a result, and their wording.
-/
namespace Graft

/-- Why an operation ends without a result. -/
inductive Fault where
  | unparsable
  | flawed (flaw : Flaw)
  | literal (fault : Literal.Fault)
  /-- A module has no function around it whose names it could share. -/
  | misplacedNonlocal
  | identifier (fault : Identifier.Fault)
  deriving DecidableEq, Repr

def Fault.message? : Fault → Option String
  | .unparsable => none
  | .flawed flaw => some flaw.message
  | .literal _ => none
  | .misplacedNonlocal => some "nonlocal declaration not allowed at module level"
  | .identifier fault => some fault.message

end Graft
