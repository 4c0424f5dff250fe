import Graft.InputType
import Graft.Registry
import Graft.Use

set_option autoImplicit false

/-!
The grafting of plugins. Every use that has no configuration gets one that names its plugins, and
the imports of the plugins are written into the module's leading section.
-/
namespace Graft

/-- A configuration: the plugins that a call is given, by their local names. -/
def configDict (plugins : List String) : Except Identifier.Fault Node := do
  let names ← plugins.mapM Node.ofIdentifier
  let items := (names.map fun name => [name]).intersperse [.glue [.text ", "]]
  let list := Node.plain .list (.glue [.text "["] :: items.flatten ++ [.glue [.text "]"]])
  let key := Node.plain .string [.text "\"plugins\""]
  let entry := Node.plain .entry [key, .glue [.text ": "], list, .absent]
  return .plain .dict [.glue [.text "\x7b"], .plain .entries [entry], .glue [.text "\x7d"]]

/-- What the uses of several modules add up to. -/
structure Tally where
  configured : Nat := 0
  skipped : Nat := 0
  warnings : List String := []
  deriving DecidableEq, Repr

/-- The state of the work on one module. What it has reached stays when the work fails. -/
structure Progress where
  tally : Tally
  notices : List Notice
  registry : Registry
  configs : List (Address × Node)

abbrev Work := ExceptT Fault (StateM Progress)

namespace Work

def notify (notices : List Notice) : Work Unit :=
  modify fun progress => { progress with notices := progress.notices ++ notices }

def warn (warning : String) : Work Unit :=
  modify fun progress =>
    { progress with
      tally := { progress.tally with warnings := progress.tally.warnings ++ [warning] } }

def ofExcept {A E : Type} (cause : E → Fault) (result : Except E A) : Work A :=
  match result with
  | .ok a => return a
  | .error e => throw (cause e)

/-- A local name for an export, in the module's registry. -/
def ensure (wanted : Export) : Work String := do
  let ensured ← ofExcept .identifier ((← get).registry.ensure wanted)
  modify fun progress => { progress with registry := ensured.registry }
  notify ensured.notices
  return ensured.name

def configuredNotice (use : Use) (plugins : List String) (specifier : String) : Notice :=
  .debug (use.label ++ ": " ++ use.factory.name ++ " configured with plugins [" ++
    ", ".intercalate plugins ++ "] from " ++ specifier)

/-- The configuration for a decision about a use. -/
def synthesize (settings : Settings) (use : Use) (decision : Decision) : Work Node := do
  let bindings ← ensure settings.bindings
  let library ← ensure (Naming.library settings decision)
  notify [configuredNotice use [bindings, library] (Naming.specifier settings decision)]
  ofExcept .identifier (configDict [bindings, library])

def unpackingAdvice (use : Use) : String :=
  deoptPrefix ++ " " ++ use.label ++ ": " ++ use.factory.name ++
    " uses argument unpacking, skipping optimization."

/-- Decides on some properties. What there is to advise is logged, and collected. -/
def classify (default place : String) (props : Option Node) : Work Decision := do
  let classified ← ofExcept id (Graft.classify default place props)
  notify classified.notices
  for advice in classified.advice do warn advice
  return classified.decision

/-- The configuration of a use, unless it has one or its arguments are hidden. -/
def prepare (settings : Settings) (use : Use) : Work (Option Node) := do
  if use.call.isConfigured then
    notify [.debug (use.label ++ ": " ++ use.factory.name ++ " already configured, skipping")]
    return none
  else if use.call.hasUnpacking then
    notify [.warning (unpackingAdvice use)]
    warn (unpackingAdvice use)
    return none
  else
    let decision ← classify settings.defaultType use.label use.call.props?
    return some (← synthesize settings use decision)

def skip : Work Unit :=
  modify fun progress =>
    { progress with tally := { progress.tally with skipped := progress.tally.skipped + 1 } }

def configure (address : Address) (config : Node) : Work Unit :=
  modify fun progress =>
    { progress with
      tally := { progress.tally with configured := progress.tally.configured + 1 }
      configs := progress.configs ++ [(address, config)] }

def prepareAll (settings : Settings) : List Use → Work Unit
  | [] => return
  | use :: rest => do
    match ← prepare settings use with
    | some config => configure use.address config
    | none => skip
    prepareAll settings rest

end Work

namespace Node

def attached (node config : Node) : Node :=
  match Call.ofNode? node with
  | some call => (call.attach config).toNode
  | none => node

/-- Gives every call its configuration, the inner calls first. -/
def inject (configs : List (Address × Node)) (address : Address) : Node → Node
  | .leaf l => .leaf l
  | .name parens id => .name parens id
  | .branch kind parens children =>
    let node := .branch kind parens (injectFrom configs address 0 children)
    match configs.lookup address with
    | some config => node.attached config
    | none => node
where
  injectFrom (configs : List (Address × Node)) (address : Address) : Nat → List Node → List Node
    | _, [] => []
    | index, node :: rest =>
      node.inject configs (address ++ [index]) :: injectFrom configs address (index + 1) rest

end Node

def Module.inject (module : Module) (configs : List (Address × Node)) : Module :=
  { module with body := Node.inject.injectFrom configs [] 1 module.body }

/-- What the work on a module gives: no module if it stays as it is. -/
structure Grafting where
  result : Except Fault (Option Module)
  tally : Tally
  notices : List Notice

/-- Works through a module, and goes on counting from a tally. -/
def graft (settings : Settings) (file : Option String) (tally : Tally) (module : Module) :
    Grafting :=
  match Scope.survey module with
  | .error fault => ⟨.error fault, tally, []⟩
  | .ok survey =>
    let (registry, notices) := Registry.ofModule module survey
    let uses := module.uses settings file survey
    let (result, progress) := (Work.prepareAll settings uses).run.run ⟨tally, notices, registry, []⟩
    let written :=
      if progress.configs.isEmpty then none
      else some (progress.registry.apply (module.inject progress.configs)).2
    ⟨result.map fun _ => written, progress.tally, progress.notices⟩

end Graft
