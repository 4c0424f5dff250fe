import Graft.Grammar.Expression

set_option autoImplicit false

/-!
Patterns of a case. A name that a pattern captures is a name node; the wildcard is only text.
-/
namespace Graft.Grammar

open Reader

section

variable (rules : Rules)

/-- A name that a pattern may capture. -/
def captured : Reader Node := do
  if ← atWord "_" then failure else name

def wildcardOr (reader : Reader Node) : Reader Node := do
  if ← atWord "_" then return .plain .pattern ((← word "_").map .leaf) else reader

def numberLiteral : Reader Node := do
  return .plain .number [.text (← sort? .number)]

def signedNumber : Reader Node := do
  if ← atWord "-" then
    let minus ← opening "-"
    return .plain .operation [.glue minus, ← numberLiteral]
  else numberLiteral

/-- A number, or the sum of a real and an imaginary one. -/
def numberPattern : Reader Node := do
  let first ← signedNumber
  if ← atAny ["+", "-"] then
    let sign ← signOf ["+", "-"]
    return .plain .operation [first, .glue sign, ← numberLiteral]
  else return first

def atNumber : Reader Bool := do
  return (← atSort .number) || (← atWord "-")

def atString : Reader Bool := do
  return (← atSort .string) || (← atSort .literalStart)

def dots : Nat → Node → Reader Node
  | 0, base => return base
  | fuel + 1, base => do
    if ← atWord "." then dots fuel (← attributeOf base) else return base

def dottedName : Reader Node := do
  dots (← get).length (← name)

def classArgument (keywordOnly : Bool) : Reader (List Node × Bool) := do
  if (← atName) && (← thenWord "=") then
    let keyword ← name
    let equals ← sign "="
    return ([keyword, .glue equals, ← rules .pattern], true)
  else if keywordOnly then failure
  else return ([← rules .pattern], false)

def classArguments : Nat → Bool → Reader (List Node)
  | 0, _ => failure
  | fuel + 1, keywordOnly => do
    if ← atWord ")" then return []
    else
      let (argument, keywordOnly) ← classArgument rules keywordOnly
      if ← atWord "," then
        let comma ← sign ","
        return argument ++ .glue comma :: (← classArguments fuel keywordOnly)
      else
        let gap ← gap
        if ← atWord ")" then return argument ++ [.glue gap] else failure

/-- A class, a value, a capture or the wildcard. -/
def namePattern : Reader Node := do
  if (← atWord "_") && !(← thenWord ".") && !(← thenWord "(") then wildcardOr failure
  else
    let base ← dottedName
    if ← atWord "(" then
      let before ← sign "("
      let arguments ← classArguments rules ((← get).length + 1) false
      let closing ← word ")"
      return .plain .pattern (base :: .glue before :: arguments ++ [.glue closing])
    else return .plain .pattern [base]

def starPattern : Reader Node := do
  let star ← opening "*"
  return .plain .pattern [.glue star, ← wildcardOr captured]

def maybeStarPattern : Reader Node := do
  if ← atWord "*" then starPattern else rules .pattern

def parenthesisedPattern : Reader Node := do
  let before ← opening "("
  if ← atWord ")" then
    return .branch .pattern ⟨before, ← word ")"⟩ []
  else
    let star ← atWord "*"
    let first ← maybeStarPattern rules
    let others ← moreItems (maybeStarPattern rules)
    if others.isEmpty && star then failure
    else return .branch .pattern ⟨before, ← mark ")"⟩ (first :: others)

def listPattern : Reader Node := do
  let before ← opening "["
  if ← atWord "]" then
    return .plain .pattern [.glue before, .glue (← word "]")]
  else
    let first ← maybeStarPattern rules
    bracketed .pattern before first (maybeStarPattern rules) "]"

def mappingKey : Reader Node := do
  if ← atNumber then numberPattern
  else if ← atString then strings rules
  else if ← atAny ["None", "True", "False"] then constant
  else
    let key ← dottedName
    if key.isA .member then return key else failure

def mappingItem : Reader (List Node × Bool) := do
  if ← atWord "**" then
    let stars ← opening "**"
    return ([.glue stars, ← captured], true)
  else
    let key ← mappingKey rules
    let colon ← sign ":"
    return ([key, .glue colon, ← rules .pattern], false)

/-- The rest of a mapping ends it. -/
def mappingItems : Nat → Bool → Reader (List Node)
  | 0, _ => failure
  | fuel + 1, ended => do
    if ← atWord "\x7d" then return []
    else if ended then failure
    else
      let (item, ended) ← mappingItem rules
      if ← atWord "," then
        let comma ← sign ","
        return item ++ .glue comma :: (← mappingItems fuel ended)
      else
        let gap ← gap
        if ← atWord "\x7d" then return item ++ [.glue gap] else failure

def mappingPattern : Reader Node := do
  let before ← opening "\x7b"
  let items ← mappingItems rules ((← get).length + 1) false
  let closing ← word "\x7d"
  return .plain .pattern (.glue before :: items ++ [.glue closing])

def closedPattern : Reader Node := do
  if ← atNumber then return .plain .pattern [← numberPattern]
  else if ← atString then return .plain .pattern [← strings rules]
  else if ← atAny ["None", "True", "False"] then return .plain .pattern [← constant]
  else if ← atWord "(" then parenthesisedPattern rules
  else if ← atWord "[" then listPattern rules
  else if ← atWord "\x7b" then mappingPattern rules
  else namePattern rules

def pattern : Reader Node := do
  let either ← chain .pattern (signOf ["|"]) (closedPattern rules)
  if ← atWord "as" then
    let word ← sign "as"
    return .plain .pattern [either, .glue word, ← captured]
  else return either

/-- The patterns of a case; a star needs a comma. -/
def casePatterns : Reader Node := do
  let star ← atWord "*"
  let first ← maybeStarPattern rules
  let others ← moreItems (maybeStarPattern rules)
  if others.isEmpty then
    if star then failure else return first
  else return .plain .pattern (first :: others)

end

end Graft.Grammar
