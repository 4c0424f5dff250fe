import Graft.Scope.Survey
import Graft.Settings
import Graft.Tree.Call

set_option autoImplicit false

/-!
Uses of the factories: the calls whose callee can only be a recognised export.
-/
namespace Graft

/-- A place in a file, as far as it is known. -/
structure Place where
  file : Option String
  line : Option Int
  column : Option Int
  deriving DecidableEq, Repr

/-- The place in front of a message. -/
def Place.label (place : Place) : String :=
  let file := match place.file with
    | some file => if file = "" then "<module>" else file
    | none => "<module>"
  match place.line with
  | some line => file ++ ":" ++ toString line ++ ":" ++ toString (place.column.getD 0)
  | none => file

structure Use where
  address : Address
  node : Node
  call : Call
  factory : Export
  place : Place

namespace Use

def label (use : Use) : String := use.place.label

/-- The factory that a call is of. -/
def factoryOf? (settings : Settings) (survey : Scope.Survey) (address : Address) (call : Call) :
    Option Export := do
  let site ← survey.siteOf? address
  let qualified ← Scope.agreed? (survey.referents site call.callee)
  settings.factoryTable.lookup qualified

def ofNode? (settings : Settings) (file : Option String) (module : Module) (survey : Scope.Survey)
    (located : Located) : Option Use := do
  let call ← Call.ofNode? located.2
  let factory ← factoryOf? settings survey located.1 call
  let position := module.positionOf located.1
  return { address := located.1, node := located.2, call, factory,
           place := ⟨file, some position.line, some position.column⟩ }

end Use

/-- The uses in a module, in the order of its text. -/
def Module.uses (module : Module) (settings : Settings) (file : Option String)
    (survey : Scope.Survey) : List Use :=
  module.root.walk.filterMap (Use.ofNode? settings file module survey)

end Graft
