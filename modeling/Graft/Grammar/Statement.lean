import Graft.Grammar.Rules

set_option autoImplicit false

/-!
Small statements: those that share a line, with semicolons between them.
-/
namespace Graft.Grammar

open Reader

section

variable (rules : Rules)

def value : Reader Node := yieldOr rules (starExpressions rules)

/-- A word, and perhaps something after it. -/
def wordWith (kind : Kind) (text : String) (rest : Reader (List Node)) : Reader Node := do
  let word ← word text
  let more ← optional do
    let gap ← gap
    return .glue gap :: (← rest)
  return .plain kind (.glue word :: more.getD [])

def alone (text : String) : Reader Node := do
  return .plain .plainStatement [.glue (← word text)]

def annotatedOf (target : Node) : Reader Node := do
  let hint ← hintAfter (rules .expression)
  if ← atWord "=" then
    let equals ← sign "="
    return .plain .annotated [target, hint, .glue equals, ← value rules]
  else return .plain .annotated [target, hint, .absent, .absent]

def augmentations : List String :=
  ["+=", "-=", "*=", "@=", "/=", "%=", "&=", "|=", "^=", "<<=", ">>=", "**=", "//="]

def augmentedOf (target : Node) : Reader Node := do
  let operator ← signOf augmentations
  return .plain .augmented [target, .glue operator, ← value rules]

/-- Every equals sign makes what stands before it a target. -/
def assignedFrom : Nat → Node → Reader (List Node)
  | 0, _ => failure
  | fuel + 1, last => do
    if ← atWord "=" then
      if last.isTarget true then
        let equals ← sign "="
        return .plain .target [last, .glue equals] :: (← assignedFrom fuel (← value rules))
      else failure
    else return [last]

def expressionOrAssignment : Reader Node := do
  let first ← value rules
  if ← atWord ":" then
    if first.isSingleTarget then annotatedOf rules first else failure
  else if ← atAny augmentations then
    if first.isSingleTarget then augmentedOf rules first else failure
  else if ← atWord "=" then
    return .plain .assign (← assignedFrom rules ((← get).length + 1) first)
  else return .plain .expression [first]

def raising : Reader Node :=
  wordWith .plainStatement "raise" do
    let raised ← rules .expression
    let cause ← optional do
      let word ← sign "from"
      return [.glue word, ← rules .expression]
    return raised :: cause.getD []

def asserting : Reader Node := do
  let word ← opening "assert"
  let test ← rules .expression
  let message ← optional do
    let comma ← sign ","
    return [.glue comma, ← rules .expression]
  return .plain .plainStatement (.glue word :: test :: message.getD [])

def deleting : Reader Node := do
  let word ← opening "del"
  let targets ← itemsOrTuple (rules .primary)
  if targets.isDeletable then return .plain .deletion [.glue word, targets] else failure

def nameList (kind : Kind) (text : String) : Reader Node := do
  let word ← opening text
  let first ← name
  let others ← many do
    let comma ← sign ","
    return [.glue comma, ← name]
  return .plain kind (.glue word :: first :: others.flatten)

def binderAs (target : Reader Node) : Reader Node := do
  if ← atWord "as" then
    let word ← sign "as"
    return .plain .binder [.glue word, ← target]
  else return .absent

def importAlias (imported : Reader Node) (comma : Reader (List Leaf)) : Reader Node := do
  let name ← imported
  let binder ← binderAs Reader.name
  return .plain .alias [name, binder, .glue (← comma)]

def importedModules : Nat → Reader (List Node)
  | 0 => failure
  | fuel + 1 => do
    let item ← importAlias dottedName (return (← optional (sign ",")).getD [])
    match item with
    | .branch _ _ [_, _, comma] =>
      if comma.isAbsent then return [item] else return item :: (← importedModules fuel)
    | _ => failure

def importing : Reader Node := do
  let word ← opening "import"
  return .plain .importing (.glue word :: (← importedModules ((← get).length + 1)))

def importedNames (close : Option String) : Nat → Reader (List Node)
  | 0 => failure
  | fuel + 1 => do
    let item ← importAlias Reader.name (return (← optional (sign ",")).getD [])
    match item, close with
    | .branch _ _ [_, _, comma], some close =>
      if comma.isAbsent then return [item]
      else if ← atWord close then return [item]
      else return item :: (← importedNames (some close) fuel)
    | .branch _ _ [_, _, comma], none =>
      if comma.isAbsent then return [item] else return item :: (← importedNames none fuel)
    | _, _ => failure

/-- The gap before a closing parenthesis, unless a comma has taken it. -/
def closeImports (aliases : List Node) : Reader (List Leaf) := do
  match aliases.getLast? with
  | some (.branch _ _ [_, _, comma]) =>
    if comma.isAbsent then mark ")" else word ")"
  | _ => failure

def importFrom : Reader Node := do
  let fromWord ← opening "from"
  let dots ← many (do return (← openingOf [".", "..."]))
  let module ← if ← atWord "import" then
      (if dots.isEmpty then failure else pure .absent)
    else dottedName
  let word ← if module.isAbsent then opening "import" else sign "import"
  let node := fun (before : List Leaf) (aliases : Node) (closing : List Leaf) =>
    Node.plain .importFrom [.glue fromWord, .glue dots.flatten, module, .glue (word ++ before),
      aliases, .glue closing]
  if ← atWord "*" then return node (← Reader.word "*") .absent []
  else if ← atWord "(" then
    let before ← opening "("
    let aliases ← importedNames (some ")") ((← get).length + 1)
    return node before (.plain .aliases aliases) (← closeImports aliases)
  else
    let aliases ← importedNames none ((← get).length + 1)
    return node [] (.plain .aliases aliases) []

def typeParameter : Reader Node := do
  let stars ← if ← atAny ["*", "**"] then openingOf ["*", "**"] else pure []
  let name ← name
  let bound ← if stars.isEmpty && (← atWord ":") then
      (do
        let colon ← sign ":"
        return .plain .bound [.glue colon, ← rules .expression])
    else pure .absent
  let default ← if ← atWord "=" then defaultAfter (starOr rules (rules .expression))
    else pure .absent
  let comma := (← optional (sign ",")).getD []
  return .plain .typeParameter [.glue stars, name, bound, default, .glue comma]

def endsComma (parameter : Node) : Bool :=
  match parameter with
  | .branch _ _ parts => !parts.getLast?.any Node.isAbsent
  | _ => false

def typeParametersFrom : Nat → Reader (List Node)
  | 0 => failure
  | fuel + 1 => do
    let parameter ← typeParameter rules
    if endsComma parameter then
      if ← atWord "]" then return [parameter, .glue (← word "]")]
      else return parameter :: (← typeParametersFrom fuel)
    else return [parameter, .glue (← mark "]")]

/-- Type parameters with the gap before their bracket. -/
def typeParameters : Reader Node := do
  if ← atWord "[" then
    let before ← sign "["
    let parts ← typeParametersFrom rules ((← get).length + 1)
    return .plain .typeParameters (.glue before :: parts)
  else return .absent

def typeAlias : Reader Node := do
  let word ← opening "type"
  let name ← name
  let parameters ← typeParameters rules
  let equals ← sign "="
  return .plain .typeAlias [.glue word, name, parameters, .glue equals, ← rules .expression]

def atTypeAlias : Reader Bool := do
  return (← atWord "type") && ((← get).drop 1).head?.any isPlainName

def smallStatement : Reader Node := do
  if ← atWord "return" then
    wordWith .plainStatement "return" do return [← starExpressions rules]
  else if ← atWord "import" then importing
  else if ← atWord "from" then importFrom
  else if ← atWord "raise" then raising rules
  else if ← atWord "pass" then alone "pass"
  else if ← atWord "del" then deleting rules
  else if ← atWord "assert" then asserting rules
  else if ← atWord "break" then alone "break"
  else if ← atWord "continue" then alone "continue"
  else if ← atWord "global" then nameList .globalNames "global"
  else if ← atWord "nonlocal" then nameList .outerNames "nonlocal"
  else if ← atTypeAlias then typeAlias rules
  else expressionOrAssignment rules

/-- Small statements to the end of a line. -/
def smallStatements : Nat → Reader (List Node)
  | 0 => failure
  | fuel + 1 => do
    let first ← smallStatement rules
    if ← atWord ";" then
      let semicolon ← sign ";"
      if ← atEnd then return [first, .glue semicolon]
      else return first :: .glue semicolon :: (← smallStatements fuel)
    else if ← atEnd then return [first]
    else failure

end

end Graft.Grammar
