import Graft.InputType
import Graft.Settings
import Graft.Tree.Call
import Graft.Tree.Import

set_option autoImplicit false

/-!
Settings that a module defines in the arguments of one call, as far as they can be read off.
-/
namespace Graft.Definition

def isCallTo (function : String) (node : Node) : Bool :=
  match node with
  | .branch .call _ (.name _ id :: _) => id.text == function
  | _ => false

/-- The first call of a function by its bare name. -/
def callTo? (module : Module) (function : String) : Option Node :=
  module.root.nodes.find? (isCallTo function)

def objectAdvice (function : String) : String :=
  deoptPrefix ++ " call " ++ function ++ " with an object literal to enable optimizations."

/-- A value that was looked for, and advice where the call cannot be read. -/
structure Found where
  value : Option Node
  advice : Option String

/-- The value of a key among the arguments of a call: in the display that is its first positional
argument, or else as a keyword. -/
def valueIn (call : Call) (function key : String) : Except Fault Found :=
  match call.arguments.find? fun argument => argument.keyword.isNone with
  | some first =>
    match first.isStarred, first.value.entries? with
    | false, some entries => do return ⟨← findValue key entries, none⟩
    | _, _ => .ok ⟨none, some (objectAdvice function)⟩
  | none => .ok ⟨(call.arguments.find? (Argument.hasKeyword key)).map (·.value), none⟩

def lookup (module : Module) (function key : String) : Except Fault Found :=
  match (callTo? module function).bind Call.ofNode? with
  | some call => valueIn call function key
  | none => .ok ⟨none, none⟩

def Found.notices (found : Found) : List Notice :=
  (found.advice.map Notice.warning).toList

end Graft.Definition
