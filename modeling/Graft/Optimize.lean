import Graft.Grafting

set_option autoImplicit false

/-!
The whole way from a source to its optimized text, with a report.
-/
namespace Graft

structure Outcome where
  code : String
  configured : Nat := 0
  skipped : Nat := 0
  warnings : List String := []
  errors : List String := []
  success : Bool := true
  deriving DecidableEq, Repr

def Outcome.hasErrors (outcome : Outcome) : Bool := !outcome.errors.isEmpty

def Outcome.hasWarnings (outcome : Outcome) : Bool := !outcome.warnings.isEmpty

def parseError (file : Option String) : String :=
  Place.label ⟨file, none, none⟩ ++ ": Parse Error:"

/-- Optimizes a source. A source that cannot be read is given back with an error; other faults end
the work. -/
def optimize (settings : Settings) (file : Option String) (code : String) :
    Except Fault Outcome × List Notice :=
  match Module.read code with
  | .error .unparsable =>
    (.ok { code, errors := [parseError file], success := false }, [.error (parseError file)])
  | .error fault => (.error fault, [])
  | .ok module =>
    let grafting := graft settings file {} module
    (grafting.result.map fun written =>
      { code := (written.getD module).source
        configured := grafting.tally.configured
        skipped := grafting.tally.skipped
        warnings := grafting.tally.warnings },
     grafting.notices)

end Graft
