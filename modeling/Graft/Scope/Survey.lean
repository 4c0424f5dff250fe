import Graft.Fault
import Graft.Scope.Names

set_option autoImplicit false

/-!
The survey of a module's scopes. Each node takes a step, made of the steps of its parts in the
order in which they bind and use names. That order is the rule of the node's kind.
-/
namespace Graft.Scope

/-- Calls that treat some of their arguments as types. -/
inductive TypingCall where
  | none
  /-- The first argument names a new type, and the others are types. -/
  | newType
  /-- The first argument is a type. -/
  | cast
  deriving DecidableEq

structure Context where
  scope : Nat
  /-- Where the node stands, unless it is written inside a string. -/
  address : Option Address
  /-- Names here are assigned to. -/
  storing : Bool := false
  /-- Strings here are hints of types. -/
  hinting : Bool := false
  /-- Strings here are arguments of types. -/
  typing : Bool := false
  /-- Strings here are only strings. -/
  verbatim : Bool := false
  call : TypingCall := .none

abbrev Step := Context → Survey → Except Fault Survey

/-- A part of a node, and its step. -/
structure Part where
  node : Node
  step : Step

def Part.absent : Part := ⟨.absent, fun _ survey => .ok survey⟩

def child (context : Context) (index : Nat) : Context :=
  { context with address := context.address.map (· ++ [index]) }

def loading (context : Context) : Context := { context with storing := false, call := .none }

def storing (context : Context) : Context := { context with storing := true, call := .none }

def inScope (context : Context) (scope : Nat) : Context := { context with scope }

namespace Step

def skip : Step := fun _ survey => .ok survey

def andThen (first second : Step) : Step := fun context survey => do
  second context (← first context survey)

def all (steps : List Step) : Step := steps.foldl andThen skip

def adapted (adjust : Context → Context) (step : Step) : Step := fun context =>
  step (adjust context)

/-- Counts a finished construct in its scope. -/
def tick : Step := fun context survey => .ok (survey.tick context.scope)

def bind (name : String) (clause : Option Clause) : Step := fun context survey =>
  .ok (survey.bind context.scope name clause context.address)

/-- Steps in a new scope inside the present one. -/
def within (region : Region) (step : Step) : Step := fun context survey =>
  let (scope, survey) := survey.openScope region context.scope
  step (inScope context scope) survey

/-- Steps in the scope around the present one. -/
def outside (step : Step) : Step := fun context survey =>
  step (inScope context (survey.frame context.scope).parent) survey

end Step

open Step

def load (part : Part) : Step := part.step.adapted loading

def store (part : Part) : Step := part.step.adapted storing

def loadAll (parts : List Part) : Step := all (parts.map load)

def nodeText : Node → String
  | .name _ id => id.text
  | _ => ""

def bindNode (node : Node) : Step := bind (nodeText node) none

/-- The names that are found for a text at this point of the survey. -/
def importedAt (survey : Survey) (context : Context) (text : String) : List String :=
  (survey.looseReferents context.scope text).filterMap fun
    | .imported name => some name
    | .other => none

def typingCallOf (names : List String) : TypingCall :=
  if names.contains "typing.NewType" || names.contains "typing.TypeVar" then .newType
  else if names.contains "typing.cast" then .cast
  else .none

def onCall (node : Node) (callee arguments : Part) : Step := fun context survey => do
  let survey := match context.address with
    | some address => survey.record address context.scope
    | none => survey
  let names := ((looseName? node).map (importedAt survey context)).getD []
  let context := { loading context with typing := false }
  let survey ← callee.step context survey
  arguments.step { context with call := typingCallOf names } survey

def onArguments (parts : List Part) : Step := fun context =>
  let hinted := { loading context with typing := true }
  match context.call, parts with
  | .newType, _ :: rest => loadAll rest hinted
  | .cast, first :: rest => fun survey => do
    loadAll rest (loading context) (← load first hinted survey)
  | _, _ => loadAll parts (loading context)

def isTypingName (name : String) : Bool :=
  (Source.dropPrefix? "typing.".toList name.toList).isSome ||
    (Source.dropPrefix? "typing_extensions.".toList name.toList).isSome

def isLiteralName (name : String) : Bool :=
  name == "typing.Literal" || name == "typing_extensions.Literal"

def onSubscript (parts : List Part) : Step := fun context survey =>
  let names := match parts.head? with
    | some part => if part.node.isName then importedAt survey context (nodeText part.node) else []
    | none => []
  loadAll parts
    { context with
      typing := names.any isTypingName
      verbatim := context.verbatim || names.any isLiteralName } survey

/-- The text of a literal that is a hint. Bytes are read as characters. -/
def literalText (value : Literal.Value) : List Char :=
  match value with
  | .text chars => chars
  | .bytes values => values.map Char.ofNat

def joinValues? : Literal.Value → Literal.Value → Option Literal.Value
  | .text a, .text b => some (.text (a ++ b))
  | .bytes a, .bytes b => some (.bytes (a ++ b))
  | _, _ => none

/-- The value of one or more literals side by side; formatted ones have none. -/
def valueOf? : Node → Except Fault (Option Literal.Value)
  | .branch .string _ [.leaf (.text written)] =>
    match Literal.decode written with
    | .ok value => .ok (some value)
    | .error fault => .error (.literal fault)
  | .branch .concatenation _ [left, _, right] =>
    if left.isA .formatted || right.isA .formatted then .ok none
    else do
      let left ← valueOf? left
      let right ← valueOf? right
      return left.bind fun a => right.bind (joinValues? a)
  | _ => .ok none

def readsStrings (context : Context) : Bool :=
  (context.hinting || context.typing) && !context.verbatim

/-- A string that is a type is surveyed as the module that it spells; without a text, its parts
are. -/
def onString (read : List Char → Step) (node : Node) (parts : Step) : Step :=
  fun context survey => do
    if readsStrings context then
      match ← valueOf? node with
      | some value =>
        if (literalText value).isEmpty then parts context survey
        else read (literalText value) { loading context with address := none } survey
      | none => parts context survey
    else parts context survey

def onImport (node : Node) : Step :=
  match node.clause? with
  | some clause =>
    all <| (clause.names.map fun (name, bound) =>
      match bound with
      | some bound => Step.bind bound (some clause)
      | none => all ((prefixes name).map fun part => Step.bind part (some clause))) ++ [tick]
  | none => tick

def declaredNames (parts : List Part) : List String :=
  parts.filterMap fun part => if part.node.isName then some (nodeText part.node) else none

/-- At the level of a module a global declaration says nothing new. -/
def onGlobal (parts : List Part) : Step := fun context survey =>
  let declared :=
    if context.scope = 0 then survey
    else (declaredNames parts).foldl (fun survey name =>
      survey.redirect context.scope name 0) survey
  tick context declared

def onNonlocal (parts : List Part) : Step := fun context survey =>
  if context.scope = 0 then .error .misplacedNonlocal
  else
    let parent := (survey.frame context.scope).parent
    tick context <| (declaredNames parts).foldl (fun survey name =>
      survey.redirect context.scope name parent) survey

/-- Type parameters have a scope of their own around what they belong to. -/
def withTypes (types : Part) (step : Step) : Step :=
  if types.node.isAbsent then step else within .generic (andThen (load types) step)

/-- What a node does with its parts, which go by their numbers. -/
inductive Act where
  | nothing
  | andThen (first second : Act)
  | tick
  | load (part : Nat)
  | store (part : Nat)
  /-- Loads every part. -/
  | each
  /-- Takes every part as the node itself is taken. -/
  | alike
  /-- Loads every part as a hint. -/
  | hints
  /-- Binds the name that a part is. -/
  | bind (part : Nat)
  | within (region : Region) (act : Act)
  | outside (act : Act)
  | withTypes (types : Nat) (act : Act)
  | call
  | arguments
  | subscript
  | string
  | strings
  | imports
  | globals
  | nonlocals
  deriving DecidableEq, Repr

def Act.all : List Act → Act
  | [] => .nothing
  | act :: rest => .andThen act (Act.all rest)

def partAt (parts : List Part) (index : Nat) : Part := parts.getD index .absent

def Act.run (read : List Char → Step) (node : Node) (parts : List Part) : Act → Step
  | .nothing => skip
  | .andThen first second => Step.andThen (first.run read node parts) (second.run read node parts)
  | .tick => Step.tick
  | .load part => Scope.load (partAt parts part)
  | .store part => Scope.store (partAt parts part)
  | .each => loadAll parts
  | .alike => Step.all (parts.map Part.step)
  | .hints => (loadAll parts).adapted fun context => { context with hinting := true }
  | .bind part => bindNode (partAt parts part).node
  | .within region act => Step.within region (act.run read node parts)
  | .outside act => Step.outside (act.run read node parts)
  | .withTypes types act => Scope.withTypes (partAt parts types) (act.run read node parts)
  | .call => onCall node (partAt parts 0) (partAt parts 2)
  | .arguments => onArguments parts
  | .subscript => onSubscript parts
  | .string => onString read node skip
  | .strings => onString read node (loadAll parts)
  | .imports => onImport node
  | .globals => onGlobal parts
  | .nonlocals => onNonlocal parts

/-- The rule of a kind, for so many parts. -/
def rule : Kind → Nat → Act
  | .member, _ + 1 => .load 0
  | .call, 4 => .call
  | .arguments, _ => .arguments
  | .argument, 5 => .load 2
  | .subscript, _ => .subscript
  | .tuple, _ => .alike
  | .list, _ => .alike
  | .starred, _ => .alike
  | .string, _ => .string
  | .concatenation, _ => .strings
  | .hint, _ => .hints
  | .walrus, 3 => .all [.store 0, .load 2, .tick]
  | .lambda, 4 => .within .function (.all [.load 1, .load 3])
  | .parameters, _ => .all [.each, .tick]
  | .parameter, 5 => .all [.bind 1, .outside (.all [.load 3, .load 2])]
  | .comprehension, 9 => .all [.load 5, .within .comprehension comprehended]
  | .generator, 9 => .all [.load 5, .within .comprehension comprehended]
  | .clause, 6 => .all [.store 1, .load 3, .load 4, .load 5, .tick]
  | .target, _ + 1 => .store 0
  | .assign, _ => .all [.each, .tick]
  | .annotated, 4 => .all [.store 0, .load 1, .load 3, .tick]
  | .augmented, 3 => .all [.store 0, .load 2, .tick]
  | .binder, 2 => .all [.store 1, .tick]
  | .withItem, _ => .all [.each, .tick]
  | .forLoop, 8 => .all [.store 2, .tick, .load 4, .load 6, .load 7]
  | .importing, _ => .imports
  | .importFrom, _ => .imports
  | .globalNames, _ => .globals
  | .outerNames, _ => .nonlocals
  | .typeAlias, 5 => .all [.bind 1, .within .generic (.all [.load 2, .load 4]), .tick]
  | .typeParameter, 5 => .all [.bind 1, .load 2, .tick, .load 3]
  | .function, 10 =>
    .all [.bind 2, .withTypes 3 (.all [.within .function (.all [.load 5, .load 9]), .load 0, .load 7]),
      .tick]
  | .classDef, 9 =>
    .all [.bind 2, .load 0, .withTypes 3 (.all [.load 5, .within .classBody (.load 8)]), .tick]
  | _, _ => .each
where
  /-- What comes after the iterable of a comprehension, in its own scope. -/
  comprehended : Act := .all [.store 3, .tick, .load 6, .load 7, .load 1]

/-- The step of a node. `read` gives the step of a text inside a string. -/
def stepOf (read : List Char → Step) : Node → Step
  | .leaf _ => skip
  | .name _ id => fun context survey =>
    if context.storing && context.address.isSome then bind id.text none context survey
    else .ok survey
  | .branch kind parens children =>
    (rule kind children.length).run read (.branch kind parens children) (partsOf read 0 children)
where
  partsOf (read : List Char → Step) : Nat → List Node → List Part
    | _, [] => []
    | index, node :: rest =>
      ⟨node, (stepOf read node).adapted (child · index)⟩ :: partsOf read (index + 1) rest

/-- Texts inside strings, nested at most so deep. A text that is no module says nothing. -/
def readText : Nat → List Char → Step
  | 0, _ => skip
  | fuel + 1, text => fun context survey =>
    match Module.read (String.ofList text) with
    | .ok module => stepOf (readText fuel) module.root context survey
    | .error .unparsable => .ok survey
    | .error fault => .error fault

/-- The scopes of a module, and where its calls stand in them. -/
def survey (module : Module) : Except Fault Survey :=
  let fuel := (renderLeaves module.layout module.leaves).length
  stepOf (readText fuel) module.root ⟨0, some [], false, false, false, false, .none⟩ .initial

end Graft.Scope
