import Graft.Fresh
import Graft.Notice
import Graft.Scope.Survey

set_option autoImplicit false

/-!
The imports of one module: those it has at its beginning, which are used again, and new ones, which
wait to be written there.
-/
namespace Graft

/-- The binder of an export under a local name. An export that keeps its name has none. -/
def importBinder (wanted : Export) (bound : String) : Except Identifier.Fault Node :=
  if bound = wanted.name then .ok .absent
  else (Node.ofIdentifier bound).map fun name => .plain .binder [.glue [.text " as "], name]

/-- An import of one export under a local name, as a statement. -/
def importLine (wanted : Export) (bound : String) : Except Identifier.Fault Node := do
  let source ← Node.ofDotted wanted.source
  let name ← Node.ofIdentifier wanted.name
  let binder ← importBinder wanted bound
  let item := Node.plain .alias [name, binder, .absent]
  let statement := Node.plain .importFrom
    [.glue [.text "from "], .absent, source, .glue [.text " import "], .plain .aliases [item],
      .absent]
  return .plain .line [.absent, statement, .glue [.lineEnd none]]

structure Registry where
  known : List (Export × String)
  /-- Names that a new import must not bind. -/
  taken : List String
  /-- Statements that wait, in the order of the requests. -/
  pending : List Node

namespace Registry

/-- What the leading imports of a module bind, in order. -/
def candidates (module : Module) : List (Export × String) :=
  module.leadingImports.flatMap fun located => located.2.exports

/-- A name is used again only if all leading imports of it mean one export. -/
def isSingle (candidates : List (Export × String)) (candidate : Export × String) : Bool :=
  candidates.all fun other => other.2 != candidate.2 || other.1 == candidate.1

def isRebound (survey : Scope.Survey) (leading : List Address) (name : String) : Bool :=
  (survey.bindingsOf name).any fun binding =>
    !(binding.origin.any fun origin => leading.contains origin)

def reboundNotice (candidate : Export × String) : Notice :=
  .debug ("'" ++ candidate.2 ++ "' is rebound in the module, not reusing it for '" ++
    candidate.1.qualified ++ "'")

/-- The first import of an export is the one that is used. -/
def learn (known : List (Export × String)) (candidate : Export × String) : List (Export × String) :=
  if (known.lookup candidate.1).isSome then known else known ++ [candidate]

/-- The registry of a module, with notices of the names that it cannot use again. -/
def ofModule (module : Module) (survey : Scope.Survey) : Registry × List Notice :=
  let leading := module.leadingImports.map (·.1)
  let single := (candidates module).filter (isSingle (candidates module))
  let rebound := fun (candidate : Export × String) => isRebound survey leading candidate.2
  ({ known := (single.filter fun candidate => !rebound candidate).foldl learn []
     taken := module.root.identifiers
     pending := [] },
   (single.filter rebound).map reboundNotice)

def hasPending (registry : Registry) : Bool := !registry.pending.isEmpty

/-- The local name of an export, or nothing. -/
def lookup (registry : Registry) (wanted : Export) : String :=
  (registry.known.lookup wanted).getD ""

def queuedNotice (wanted : Export) (bound : String) : Notice :=
  .debug ("Queued import of '" ++ wanted.qualified ++ "' as '" ++ bound ++ "'")

/-- What a request gives: the local name, the registry after it, and the notices of it. -/
structure Ensured where
  name : String
  registry : Registry
  notices : List Notice

/-- A local name for an export, from a known import or from a new one. A request for what cannot be
imported changes nothing. -/
def ensure (registry : Registry) (wanted : Export) : Except Identifier.Fault Ensured :=
  match registry.known.lookup wanted with
  | some name => .ok ⟨name, registry, []⟩
  | none => do
    let name := Fresh.choose registry.taken wanted.name
    let statement ← importLine wanted name
    return ⟨name,
      { known := registry.known ++ [(wanted, name)]
        taken := registry.taken ++ [name]
        pending := registry.pending ++ [statement] },
      [queuedNotice wanted name]⟩

/-- Writes what waits into a module. The module is left as it is if nothing waits. -/
def apply (registry : Registry) (module : Module) : Registry × Module :=
  if registry.hasPending then
    ({ registry with pending := [] }, module.insertLeading registry.pending)
  else (registry, module)

end Registry

end Graft
