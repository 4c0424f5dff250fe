set_option autoImplicit false

/-!
What packages give to a module by name.
-/
namespace Graft

/-- The export `name` of the package module `source`. -/
structure Export where
  source : String
  name : String
  deriving DecidableEq, Repr

def Export.qualified (e : Export) : String := e.source ++ "." ++ e.name

end Graft
