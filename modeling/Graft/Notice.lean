set_option autoImplicit false

/-!
Records of the log: what happened, and how much it matters.
-/
namespace Graft

inductive Severity where
  | debug
  | warning
  | error
  deriving DecidableEq, Repr

/-- A record of the log. -/
structure Notice where
  severity : Severity
  text : String
  deriving DecidableEq, Repr

namespace Notice

def debug (message : String) : Notice := ⟨.debug, message⟩

def warning (message : String) : Notice := ⟨.warning, "⚠️  " ++ message⟩

def error (message : String) : Notice := ⟨.error, "❌ " ++ message⟩

end Notice

end Graft
