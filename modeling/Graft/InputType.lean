import Graft.Naming
import Graft.Notice
import Graft.Tree.Display

set_option autoImplicit false

/-!
What the properties of a call say about its input type, by their shape alone.
-/
namespace Graft

def deoptPrefix : String := "[FormKit de-opt]"

def typeKey : String := "type"

/-- A spread may bring another type, unless a literal type comes after it. -/
def spreadAfterType (entries : List Entry) : Except Fault Bool :=
  entries.foldlM (fun hidden entry => do
    match entry with
    | .spread _ => return true
    | .keyed _ _ => if ← entry.hasKey typeKey then return false else return hidden) false

/-- The type that a display writes down, or the default if it writes none. -/
def literalType? (default : String) (entries : List Entry) : Except Fault (Option String) := do
  let found ← findValue typeKey entries
  if ← spreadAfterType entries then return none
  else
    match found with
    | none => return some default
    | some value => value.stringValue?

structure Classified where
  decision : Decision
  /-- What to advise, if the type is not known. -/
  advice : Option String
  deriving DecidableEq, Repr

def boundTypeAdvice (place : String) : String :=
  let location := if place = "" then "" else " " ++ place ++ ":"
  deoptPrefix ++ location ++ " Input uses bound type prop, skipping optimization."

def classify (default place : String) (props : Option Node) : Except Fault Classified := do
  match props with
  | none => return ⟨.static default, none⟩
  | some props =>
    let type ← match props.entries? with
      | some entries => literalType? default entries
      | none => pure none
    match type with
    | some type => return ⟨.static type, none⟩
    | none => return ⟨.dynamic, some (boundTypeAdvice place)⟩

def Classified.notices (classified : Classified) : List Notice :=
  (classified.advice.map Notice.warning).toList

end Graft
