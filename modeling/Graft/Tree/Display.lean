import Graft.Fault
import Graft.Tree.Basic

set_option autoImplicit false

/-!
Dict displays, entry by entry.
-/
namespace Graft

/-- An entry of a display: a key with its value, or a mapping that is spread into it. -/
inductive Entry where
  | keyed (key value : Node)
  | spread (value : Node)

namespace Node

/-- The text of one plain string literal. -/
def stringValue? : Node → Except Fault (Option String)
  | .branch .string _ [.leaf (.text written)] =>
    match Literal.decode written with
    | .ok (.text chars) => .ok (some (String.ofList chars))
    | .ok (.bytes _) => .ok none
    | .error fault => .error (.literal fault)
  | _ => .ok none

def entry? : Node → Option Entry
  | .branch .entry _ [key, _, value, _] => some (.keyed key value)
  | .branch .spread _ [_, value, _] => some (.spread value)
  | _ => none

/-- The entries of a dict display, if it is one. -/
def entries? : Node → Option (List Entry)
  | .branch .dict _ [_, entries, _] => some (entries.children.filterMap entry?)
  | _ => none

end Node

/-- Whether an entry's key is a literal of the text `key`. -/
def Entry.hasKey (key : String) : Entry → Except Fault Bool
  | .keyed node _ => do return (← node.stringValue?) == some key
  | .spread _ => return false

/-- The value that is last written under a literal key. -/
def findValue (key : String) (entries : List Entry) : Except Fault (Option Node) :=
  entries.foldlM (fun found entry => do
    match entry, ← entry.hasKey key with
    | .keyed _ value, true => return some value
    | _, _ => return found) none

end Graft
