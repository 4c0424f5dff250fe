import Graft.Grammar.Basic
import Graft.Grammar.Target

set_option autoImplicit false

/-!
Expressions. Each rule takes the other rules as an argument, so that none is recursive by itself.
-/
namespace Graft.Grammar

open Reader

section

variable (rules : Rules)

def starred : Reader Node := do
  let star ← opening "*"
  return .plain .starred [.glue star, ← rules .bitwiseOr]

/-- An expression that may be named by a walrus. -/
def named : Reader Node := do
  if (← atName) && (← thenWord ":=") then
    let target ← name
    let walrus ← sign ":="
    return .plain .walrus [target, .glue walrus, ← rules .expression]
  else rules .expression

def starOr (reader : Reader Node) : Reader Node := do
  if ← atWord "*" then starred rules else reader

/-- The items after the first, each with the comma before it, and perhaps a last comma. -/
def moreItems (item : Reader Node) : Reader (List Node) := do
  let others ← many do
    let comma ← sign ","
    return [.glue comma, ← item]
  let last ← optional (mark ",")
  return others.flatten ++ (last.map fun comma => [.glue comma]).getD []

/-- Items as they stand; a comma makes a tuple of them. -/
def itemsOrTuple (item : Reader Node) : Reader Node := do
  let first ← item
  let others ← moreItems item
  return if others.isEmpty then first else .plain .tuple (first :: others)

def starExpressions : Reader Node :=
  itemsOrTuple (starOr rules (rules .expression))

def yielding : Reader Node := do
  let word ← word "yield"
  if ← atWord "from" then
    let source ← sign "from"
    return .plain .yielding [.glue (word ++ source), ← rules .expression]
  else
    match ← optional (do return (← gap, ← starExpressions rules)) with
    | some (gap, value) => return .plain .yielding [.glue (word ++ gap), value]
    | none => return .plain .yielding [.glue word]

def yieldOr (reader : Reader Node) : Reader Node := do
  if ← atWord "yield" then yielding rules else reader

def checked (accept : Node → Bool) (reader : Reader Node) : Reader Node := do
  let node ← reader
  if accept node then return node else failure

/-- One target, perhaps with a star. -/
def starTarget : Reader Node := do
  checked (Node.isTarget true) do
    if ← atWord "*" then
      let star ← opening "*"
      return .plain .starred [.glue star, ← rules .primary]
    else rules .primary

def starTargets : Reader Node := itemsOrTuple (starTarget rules)

def condition : Reader (List Node) := do
  let word ← sign "if"
  return [.glue word, ← rules .disjunction]

/-- The words, target, word, iterable and conditions of a clause. -/
def clauseParts : Reader (List Node) := do
  let async ← optional (mark "async")
  let words ← sign "for"
  let target ← starTargets rules
  let word ← sign "in"
  let iterable ← rules .disjunction
  let conditions ← many (condition rules)
  return [.glue (async.getD [] ++ words), target, .glue word, iterable,
    .plain .conditions conditions.flatten]

def nest : List (List Node) → Node
  | [] => .absent
  | parts :: inner => .plain .clause (parts ++ [nest inner])

def atClause : Reader Bool := atAny ["for", "async"]

/-- The clauses of a comprehension: the parts of the first, with the others nested in it. -/
def clauses : Reader (List Node) := do
  let first ← clauseParts rules
  let others ← many (clauseParts rules)
  return first ++ [nest others]

def comprehension (kind : Kind) (before : List Leaf) (item : Node) (after : Reader (List Leaf)) :
    Reader Node := do
  let clauses ← clauses rules
  let closing ← after
  return .plain kind (.glue before :: item :: clauses ++ [.glue closing])

/-- A bracketed list of things that begins with a first item already read. -/
def bracketed (kind : Kind) (before : List Leaf) (first : Node) (item : Reader Node)
    (close : String) : Reader Node := do
  let others ← moreItems item
  let closing ← mark close
  return .plain kind (.glue before :: first :: others ++ [.glue closing])

def parenthesised : Reader Node := do
  let before ← opening "("
  if ← atWord ")" then
    return .branch .tuple ⟨before, ← word ")"⟩ []
  else if ← atWord "yield" then
    let value ← yielding rules
    return value.wrap before (← mark ")")
  else
    let first ← starOr rules (named rules)
    if ← atClause then
      if first.isA .starred then failure
      else
        let value ← comprehension rules .generator [] (.plain .item [first]) (pure [])
        return value.wrap before (← mark ")")
    else if ← atWord "," then
      let others ← moreItems (starOr rules (named rules))
      return .branch .tuple ⟨before, ← mark ")"⟩ (first :: others)
    else if first.isA .starred then failure
    else return first.wrap before (← mark ")")

def listDisplay : Reader Node := do
  let before ← opening "["
  if ← atWord "]" then
    return .plain .list [.glue before, .glue (← word "]")]
  else
    let first ← starOr rules (named rules)
    if ← atClause then
      if first.isA .starred then failure
      else comprehension rules .comprehension before (.plain .item [first]) (mark "]")
    else bracketed .list before first (starOr rules (named rules)) "]"

/-- The comma after an entry, with the gap after it. -/
def entryComma : Reader Node := do
  return .glue ((← optional (sign ",")).getD [])

def spread : Reader Node := do
  let stars ← opening "**"
  let value ← rules .bitwiseOr
  return .plain .spread [.glue stars, value, ← entryComma]

/-- A comma has taken the gap after it. -/
def endsOpen (entries : List Node) : Bool :=
  match entries.getLast? with
  | some (.branch _ _ parts) => parts.getLast?.any Node.isAbsent
  | _ => false

def dictEntries : Nat → Reader (List Node)
  | 0 => failure
  | fuel + 1 => do
    if ← atWord "\x7d" then return []
    else
      let entry ←
        if ← atWord "**" then spread rules
        else
          let key ← rules .expression
          let colon ← sign ":"
          let value ← rules .expression
          pure (.plain .entry [key, .glue colon, value, ← entryComma])
      if endsOpen [entry] then return [entry] else return entry :: (← dictEntries fuel)

def dictOf (before : List Leaf) (entries : List Node) : Reader Node := do
  let closing ← if endsOpen entries then mark "\x7d" else word "\x7d"
  return .plain .dict [.glue before, .plain .entries entries, .glue closing]

def restOfDict : Reader (List Node) := do
  dictEntries rules ((← get).length + 1)

/-- Dicts, sets and their comprehensions. -/
def braced : Reader Node := do
  let before ← opening "\x7b"
  if (← atWord "\x7d") || (← atWord "**") then
    dictOf before (← restOfDict rules)
  else if ← atWord "*" then
    let first ← starred rules
    bracketed .set before first (starOr rules (named rules)) "\x7d"
  else
    let first ← named rules
    if first.isA .walrus then setOf before first
    else if ← atWord ":" then
      let colon ← sign ":"
      let value ← rules .expression
      if ← atClause then
        comprehension rules .comprehension before (.plain .item [first, .glue colon, value])
          (mark "\x7d")
      else
        let comma ← entryComma
        let entry := .plain .entry [first, .glue colon, value, comma]
        let others ← if comma.isAbsent then pure [] else restOfDict rules
        dictOf before (entry :: others)
    else setOf before first
where
  setOf (before : List Leaf) (first : Node) : Reader Node := do
    if ← atClause then
      comprehension rules .comprehension before (.plain .item [first]) (mark "\x7d")
    else bracketed .set before first (starOr rules (named rules)) "\x7d"

/-- The conversion of a replacement field. -/
def conversion : Reader (List Leaf) := do
  let sign ← sign "!"
  return sign ++ [.text (← sort? .name)]

def literalPart : Reader Node := do
  if ← atSort .literalText then return .text (← sort? .literalText)
  else rules .field

/-- A replacement field, with its format. Nobody puts the gap before it where it belongs: a text of a
formatted literal has none. -/
def field : Reader Node := do
  let before ← sign "\x7b"
  let value ← yieldOr rules (starExpressions rules)
  let echo ← optional (mark "=")
  let convert ← optional conversion
  let format ← optional do
    let colon ← mark ":"
    return .glue colon :: (← many (literalPart rules))
  let closing ← mark "\x7d"
  return .plain .field ([.glue before, value, .glue (echo.getD [] ++ convert.getD [])] ++
    format.getD [] ++ [.glue closing])

def stringLiteral : Reader Node := do
  if ← atSort .string then
    return .plain .string [.text (← sort? .string)]
  else
    let start ← sort? .literalStart
    let parts ← many (literalPart rules)
    let stop ← sort? .literalEnd
    return .plain .formatted (.text start :: parts ++ [.text stop])

def joinStrings (first : Node) : List (List Leaf × Node) → Node
  | [] => first
  | (gap, next) :: rest => .plain .concatenation [first, .glue gap, joinStrings next rest]

/-- Literals side by side are one string. -/
def strings : Reader Node := do
  let first ← stringLiteral rules
  let others ← many do
    let gap ← gap
    return (gap, ← stringLiteral rules)
  return joinStrings first others

def atom : Reader Node := do
  if ← atWord "(" then parenthesised rules
  else if ← atWord "[" then listDisplay rules
  else if ← atWord "\x7b" then braced rules
  else if ← atWord "..." then return .plain .ellipsis ((← word "...").map .leaf)
  else if ← atSort .number then return .plain .number [.text (← sort? .number)]
  else if (← atSort .string) || (← atSort .literalStart) then strings rules
  else constant <|> name

/-- How far the arguments of a call have come: after the first keyword no value stands alone, and
after two stars none has a single one. -/
inductive Phase where
  | positional
  | keyword
  | mapping
  deriving DecidableEq

structure ArgumentHead where
  star : List Leaf := []
  keyword : Node := .absent
  phase : Phase

def ArgumentHead.isPlain (head : ArgumentHead) : Bool :=
  head.star.isEmpty && head.keyword.isAbsent

def argumentHead (phase : Phase) : Reader ArgumentHead := do
  if ← atWord "*" then
    if phase = .mapping then failure else return { star := ← opening "*", phase }
  else if ← atWord "**" then return { star := ← opening "**", phase := .mapping }
  else if (← atName) && (← thenWord "=") then
    let keyword ← name
    let equals ← sign "="
    return { keyword := .plain .keyword [keyword, .glue equals],
             phase := if phase = .mapping then .mapping else .keyword }
  else if phase = .positional then return { phase }
  else failure

def argumentNode (head : ArgumentHead) (value : Node) (comma gap : List Leaf) : Node :=
  .plain .argument [.glue head.star, head.keyword, value, .glue comma, .glue gap]

def argumentValue (head : ArgumentHead) : Reader Node :=
  if head.isPlain then named rules else rules .expression

/-- Arguments up to the closing parenthesis. The gap before it belongs to the last one, unless
that has a comma. A generator may stand alone. -/
def argumentsFrom : Nat → Bool → Phase → Reader (List Node)
  | 0, _, _ => failure
  | fuel + 1, sole, phase => do
    if ← atWord ")" then return []
    else
      let head ← argumentHead phase
      let value ← argumentValue rules head
      if ← atWord "," then
        let comma ← sign ","
        return argumentNode head value comma [] :: (← argumentsFrom fuel false head.phase)
      else
        let value ←
          if (← atClause) && sole && head.isPlain then
            comprehension rules .generator [] (.plain .item [value]) (pure [])
          else pure value
        let gap ← gap
        if ← atWord ")" then return [argumentNode head value [] gap] else failure

def arguments : Reader (List Node) := do
  argumentsFrom rules ((← get).length + 1) true .positional

def callArguments (callee : Node) : Reader Node := do
  let before ← sign "("
  let arguments ← arguments rules
  let closing ← word ")"
  return .plain .call [callee, .glue before, .plain .arguments arguments, .glue closing]

def sliceBound : Reader (List Node) := do
  if ← atAny [":", ",", "]"] then return []
  else
    let gap ← gap
    return [.glue gap, ← rules .expression]

def sliceFrom (lower : List Node) : Reader Node := do
  let first ← if lower.isEmpty then word ":" else mark ":"
  let upper ← sliceBound rules
  let step ← optional do
    let second ← mark ":"
    return .glue second :: (← sliceBound rules)
  return .plain .slice (lower ++ .glue first :: upper ++ step.getD [])

def sliceItem : Reader Node := do
  if ← atWord "*" then
    let star ← opening "*"
    return .plain .starred [.glue star, ← rules .expression]
  else if ← atWord ":" then sliceFrom rules []
  else
    let value ← named rules
    if ← atWord ":" then
      if value.isA .walrus then failure else sliceFrom rules [value]
    else return value

def subscriptItems (base : Node) : Reader Node := do
  let before ← sign "["
  let first ← sliceItem rules
  let others ← moreItems (sliceItem rules)
  let closing ← mark "]"
  return .plain .subscript [base, .glue before, .plain .items (first :: others), .glue closing]

def attributeOf (base : Node) : Reader Node := do
  let dot ← sign "."
  return .plain .member [base, .glue dot, ← name]

def trailers : Nat → Node → Reader Node
  | 0, base => return base
  | fuel + 1, base => do
    if ← atWord "." then trailers fuel (← attributeOf base)
    else if ← atWord "(" then trailers fuel (← callArguments rules base)
    else if ← atWord "[" then trailers fuel (← subscriptItems rules base)
    else return base

def primary : Reader Node := do
  let base ← atom rules
  trailers rules (← get).length base

def awaited : Reader Node := do
  if ← atWord "await" then
    let word ← opening "await"
    return .plain .operation [.glue word, ← primary rules]
  else primary rules

def power : Reader Node := do
  let base ← awaited rules
  if ← atWord "**" then
    let stars ← sign "**"
    return .plain .operation [base, .glue stars, ← rules .factor]
  else return base

def factor : Reader Node := do
  if ← atAny ["+", "-", "~"] then
    let operator ← openingOf ["+", "-", "~"]
    return .plain .operation [.glue operator, ← rules .factor]
  else power rules

def operation (operators : List String) (operand : Reader Node) : Reader Node :=
  chain .operation (signOf operators) operand

def bitwiseOr : Reader Node :=
  operation ["|"] <| operation ["^"] <| operation ["&"] <| operation ["<<", ">>"] <|
    operation ["+", "-"] <| operation ["*", "/", "//", "%", "@"] <| factor rules

def comparator : Reader (List Leaf) := do
  if ← atWord "not" then
    return (← mark "not") ++ (← sign "in")
  else if ← atWord "is" then
    let is ← mark "is"
    if ← atWord "not" then return is ++ (← sign "not") else return is ++ (← gap)
  else signOf ["==", "!=", "<", "<=", ">", ">=", "in"]

def comparison : Reader Node :=
  chain .operation comparator (bitwiseOr rules)

def inversion : Reader Node := do
  if ← atWord "not" then
    let word ← opening "not"
    return .plain .operation [.glue word, ← rules .inversion]
  else comparison rules

def disjunction : Reader Node :=
  operation ["or"] <| operation ["and"] <| inversion rules

/-- A parameter, with its comma. -/
structure Parameter where
  node : Node
  hasDefault : Bool
  hasComma : Bool

def commaOrEnd (close : String) : Reader (List Leaf × Bool) := do
  if ← atWord "," then return (← sign ",", true)
  else if ← atWord close then return (← gap, false)
  else failure

def hintAfter (reader : Reader Node) : Reader Node := do
  let colon ← sign ":"
  return .plain .hint [.glue colon, ← reader]

def defaultAfter (reader : Reader Node) : Reader Node := do
  let equals ← sign "="
  return .plain .default [.glue equals, ← reader]

/-- A parameter after its stars. Those of a lambda have no hint. -/
def parameter (close : String) (stars : List Leaf) (hint : Reader Node) :
    Reader Parameter := do
  let name ← name
  let hint ← if ← atWord ":" then
      (if close == ":" then pure .absent else hintAfter hint)
    else pure .absent
  let default ← if ← atWord "=" then defaultAfter (rules .expression) else pure .absent
  let (comma, hasComma) ← commaOrEnd close
  return ⟨.plain .parameter [.glue stars, name, hint, default, .glue comma],
    !default.isAbsent, hasComma⟩

/-- What may still come in a list of parameters. -/
structure Stage where
  /-- A default has been given, and none may be left out. -/
  defaulted : Bool := false
  /-- A slash may stand here. -/
  slash : Bool := false
  /-- A slash has been read. -/
  slashed : Bool := false
  /-- After a star, every parameter may have a default. -/
  keywordOnly : Bool := false
  /-- A name has to follow a lone star. -/
  pending : Bool := false

def parametersFrom (close : String) : Nat → Stage → Reader (List Node)
  | 0, _ => failure
  | fuel + 1, stage => do
    let next : Parameter → Stage → Reader (List Node) := fun parameter stage => do
      if parameter.hasComma then
        return parameter.node :: (← parametersFrom close fuel stage)
      else return [parameter.node]
    if ← atWord close then
      if stage.pending then failure else return []
    else if ← atWord "/" then
      if stage.slash then
        let slash ← word "/"
        let (comma, more) ← commaOrEnd close
        let node := Node.glue (slash ++ comma)
        if more then
          return node :: (← parametersFrom close fuel
            { stage with slash := false, slashed := true })
        else return [node]
      else failure
    else if ← atWord "**" then
      if stage.pending then failure
      else
        let stars ← opening "**"
        let last ← parameter rules close stars (rules .expression)
        if last.hasDefault then failure
        else if ← atWord close then return [last.node]
        else failure
    else if ← atWord "*" then
      if stage.keywordOnly then failure
      else
        let star ← opening "*"
        if ← atWord "," then
          let comma ← word ","
          let after ← gap
          let node := Node.glue (star ++ comma ++ after)
          return node :: (← parametersFrom close fuel
            { stage with slash := false, keywordOnly := true, pending := true })
        else
          let rest ← parameter rules close star (starOr rules (rules .expression))
          if rest.hasDefault then failure
          else next rest { stage with slash := false, keywordOnly := true }
    else
      let parameter ← parameter rules close [] (rules .expression)
      if stage.defaulted && !parameter.hasDefault && !stage.keywordOnly then failure
      else
        next parameter
          { stage with
            defaulted := stage.defaulted || parameter.hasDefault
            slash := !stage.keywordOnly && !stage.slashed
            pending := false }

def parameters (close : String) : Reader Node := do
  return .plain .parameters (← parametersFrom rules close ((← get).length + 1) {})

def lambda : Reader Node := do
  let word ← opening "lambda"
  let parameters ← parameters rules ":"
  let colon ← opening ":"
  return .plain .lambda [.glue word, parameters, .glue colon, ← rules .expression]

def expression : Reader Node := do
  if ← atWord "lambda" then lambda rules
  else
    let value ← disjunction rules
    if ← atWord "if" then
      let word ← sign "if"
      let condition ← rules .disjunction
      let other ← sign "else"
      return .plain .operation [value, .glue word, condition, .glue other, ← rules .expression]
    else return value

end

end Graft.Grammar
