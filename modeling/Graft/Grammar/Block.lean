import Graft.Grammar.Statement
import Graft.Source.Line

set_option autoImplicit false

/-!
Statements of a source: lines of small statements, and compound statements with their blocks.
-/
namespace Graft.Grammar

open Source

/-- A reader of lines. -/
abbrev Script := StateT Lines Option

namespace Script

def peek : Script (Option Line) := do
  return (← get).lines.head?

def next : Script Line := do
  let source ← get
  match source.lines with
  | [] => failure
  | line :: rest =>
    set { source with lines := rest }
    return line

def ofOption {A : Type} : Option A → Script A
  | some a => return a
  | none => failure

/-- A line of a depth whose first token is one of some words. -/
def atWords (depth : Nat) (words : List String) : Script Bool := do
  let first := (← peek).bind fun line => if line.depth = depth then line.tokens.head? else none
  return words.any fun word => first.any (Reader.tokenIs word)

end Script

open Script Reader

def rulesFor (line : Line) : Rules := rules (line.tokens.length + 1)

/-- The header of a compound statement, up to its colon, and the tokens after it. -/
structure Header where
  line : Line
  parts : List Node
  rest : List Token

def header (reader : Rules → Reader (List Node)) : Script Header := do
  let line ← next
  let (parts, rest) ← ofOption ((reader (rulesFor line)).run line.tokens)
  return ⟨line, parts, rest⟩

def takeFooter (margin : Chars) : Script (List Leaf) := do
  let source ← get
  match source.lines with
  | line :: rest =>
    let (footer, above) := splitFooter margin line.above
    set { source with lines := { line with above } :: rest }
    return footer.flatMap Blank.leaves
  | [] =>
    let (footer, below) := splitFooter margin source.below
    set { source with below }
    return footer.flatMap Blank.leaves

section

variable (statements : Nat → Script (List Node))

def block (header : Header) : Script Node := do
  match ← peek with
  | some line =>
    if line.depth = header.line.depth + 1 then
      let body ← statements line.depth
      let footer ← takeFooter line.margin
      return .plain .block (.glue header.line.trail :: body ++ [.glue footer])
    else failure
  | none => failure

/-- What a colon introduces: statements on the same line, or a block. -/
def suite (header : Header) : Script Node := do
  match header.rest with
  | [] => block statements header
  | token :: _ =>
    let smalls ← ofOption <|
      whole (smallStatements (rulesFor header.line) (header.rest.length + 1)) header.rest
    return .plain .suite (.glue token.gap :: smalls ++ [.glue header.line.trail])

def simpleLine : Script Node := do
  let line ← next
  let smalls ← ofOption <|
    whole (smallStatements (rulesFor line) (line.tokens.length + 1)) line.tokens
  return .plain .line (.glue line.before :: smalls ++ [.glue line.trail])

/-- A clause of a compound statement, with its own line. -/
def clause (reader : Rules → Reader (List Node)) : Script Node := do
  let header ← header reader
  let body ← suite statements header
  return .plain .clauseBlock (.glue header.line.before :: header.parts ++ [body])

def wordClause (word : String) (_ : Rules) : Reader (List Node) := do
  return [.glue ((← Reader.word word) ++ (← mark ":"))]

def otherwise (depth : Nat) : Script Node := do
  if ← atWords depth ["else"] then clause statements (wordClause "else") else return .absent

def testClause (word : String) (rules : Rules) : Reader (List Node) := do
  let word ← opening word
  let test ← named rules
  return [.glue word, test, .glue (← mark ":")]

def elifs (depth : Nat) : Nat → Script (List Node)
  | 0 => failure
  | fuel + 1 => do
    if ← atWords depth ["elif"] then
      return (← clause statements (testClause "elif")) :: (← elifs depth fuel)
    else return []

def ifChain (depth : Nat) : Script Node := do
  let first ← clause statements (testClause "if")
  let others ← elifs statements depth ((← get).lines.length + 1)
  return .plain .compound (first :: others ++ [← otherwise statements depth])

def whileLoop (depth : Nat) : Script Node := do
  let first ← clause statements (testClause "while")
  return .plain .compound [first, ← otherwise statements depth]

def asyncWord (word : String) : Reader (List Leaf) := do
  let async ← if ← atWord "async" then opening "async" else pure []
  return async ++ (← opening word)

def forLoop (depth : Nat) : Script Node := do
  let header ← header fun rules => do
    let words ← asyncWord "for"
    let target ← starTargets rules
    let word ← sign "in"
    let iterable ← starExpressions rules
    return [.glue words, target, .glue word, iterable, .glue (← mark ":")]
  let body ← suite statements header
  return .plain .forLoop
    (.glue header.line.before :: header.parts ++ [body, ← otherwise statements depth])

def withItem (rules : Rules) (comma : Reader (List Leaf)) : Reader Node := do
  let value ← rules .expression
  let binder ← binderAs (starTarget rules)
  return .plain .withItem [value, binder, .glue (← comma)]

/-- Items up to a closing word. The gap before it belongs to the last one. -/
def withItems (rules : Rules) (close : String) (trailing : Bool) : Nat → Reader (List Node)
  | 0 => failure
  | fuel + 1 => do
    let item ← withItem rules do
      if ← atWord "," then sign "," else gap
    if ← atWord close then
      if trailing || !endsInComma item then return [item] else failure
    else if endsInComma item then return item :: (← withItems rules close trailing fuel)
    else failure
where
  endsInComma : Node → Bool
    | .branch _ _ [_, _, comma] => comma.leaves.contains (.text ",")
    | _ => false

def withHeader (rules : Rules) : Reader (List Node) := do
  let words ← asyncWord "with"
  let fuel := (← get).length + 1
  let inParentheses := do
    let before ← opening "("
    let items ← withItems rules ")" true fuel
    let closing ← word ")"
    return .glue (words ++ before) :: items ++ [.glue (closing ++ (← mark ":"))]
  let bare := do
    let items ← withItems rules ":" false fuel
    return .glue words :: items ++ [.glue (← word ":")]
  inParentheses <|> bare

def withBlock : Script Node := do
  clause statements withHeader

/-- What an `except` clause catches. -/
def handlerHeader (group : Bool) (rules : Rules) : Reader (List Node) := do
  let word ← mark "except"
  let word ← if group then pure (word ++ (← mark "*")) else pure word
  if (← atWord ":") && !group then return [.glue (word ++ (← mark ":"))]
  else
    let gap ← gap
    let caught ← itemsOrTuple (rules .expression)
    let binder ← if caught.isA .tuple && caught.parens.opening.isEmpty then pure .absent
      else binderAs name
    return [.glue (word ++ gap), caught, binder, .glue (← mark ":")]

def atGroup : Script Bool := do
  match ← peek with
  | some line => return (line.tokens.drop 1).head?.any (tokenIs "*")
  | none => return false

def handlers (depth : Nat) (group : Bool) : Nat → Script (List Node)
  | 0 => failure
  | fuel + 1 => do
    if ← atWords depth ["except"] then
      if (← atGroup) == group then
        let first ← clause statements (handlerHeader group)
        return first :: (← handlers depth group fuel)
      else failure
    else return []

def tryBlock (depth : Nat) : Script Node := do
  let header ← header (wordClause "try")
  let body ← suite statements header
  let group ← atGroup
  let handlers ← handlers statements depth group ((← get).lines.length + 1)
  let other ← if handlers.isEmpty then pure .absent else otherwise statements depth
  let last ← if ← atWords depth ["finally"] then
      clause statements (wordClause "finally")
    else pure .absent
  if handlers.isEmpty && last.isAbsent then failure
  else
    let kind := if group && !handlers.isEmpty then Kind.tryGroup else Kind.tryBlock
    return .plain kind
      (.glue header.line.before :: header.parts ++ body :: handlers ++ [other, last])

def caseHeader (rules : Rules) : Reader (List Node) := do
  let word ← opening "case"
  let pattern ← casePatterns rules
  let guard ← if ← atWord "if" then
      (do
        let word ← sign "if"
        return [.glue word, ← named rules])
    else pure []
  return .glue word :: pattern :: guard ++ [.glue (← mark ":")]

def cases (depth : Nat) : Nat → Script (List Node)
  | 0 => failure
  | fuel + 1 => do
    if ← atWords depth ["case"] then
      return (← clause statements caseHeader) :: (← cases depth fuel)
    else return []

def subject (rules : Rules) : Reader Node := do
  let first ← starOr rules (named rules)
  let others ← moreItems (starOr rules (named rules))
  if others.isEmpty then
    if first.isA .starred then failure else return first
  else return .plain .tuple (first :: others)

def matchBlock (depth : Nat) : Script Node := do
  let header ← header fun rules => do
    let word ← opening "match"
    let subject ← subject rules
    return [.glue word, subject, .glue (← mark ":")]
  match header.rest, ← peek with
  | [], some line =>
    if line.depth = depth + 1 then
      let cases ← cases statements line.depth ((← get).lines.length + 1)
      let deeper := (← peek).any fun line => depth < line.depth
      if cases.isEmpty || deeper then failure
      else
        let footer ← takeFooter line.margin
        return .plain .compound
          (.glue header.line.before :: header.parts ++ .glue header.line.trail :: cases ++
            [.glue footer])
    else failure
  | _, _ => failure

def returns (rules : Rules) : Reader Node := do
  if ← atWord "->" then
    let arrow ← sign "->"
    return .plain .hint [.glue arrow, ← rules .expression]
  else return .absent

/-- The decorators of a definition, with what stands above it. -/
def decorated (decorators : List Node) (header : Header) : Node :=
  .plain .decorators (decorators ++ [.glue header.line.before])

def function (decorators : List Node) : Script Node := do
  let header ← header fun rules => do
    let words ← asyncWord "def"
    let name ← name
    let types ← typeParameters rules
    let before ← sign "("
    let parameters ← parameters rules ")"
    let closing ← word ")"
    let returns ← returns rules
    return [.glue words, name, types, .glue before, parameters, .glue closing, returns,
      .glue (← mark ":")]
  let body ← suite statements header
  return .plain .function (decorated decorators header :: header.parts ++ [body])

def classDef (decorators : List Node) : Script Node := do
  let header ← header fun rules => do
    let word ← opening "class"
    let name ← name
    let types ← typeParameters rules
    let bases ← if ← atWord "(" then
        (do
          let before ← sign "("
          let arguments ← argumentsFrom rules ((← get).length + 1) false .positional
          return [.glue before, .plain .arguments arguments, .glue (← Reader.word ")")])
      else pure [.absent, .plain .arguments [], .absent]
    return [.glue word, name, types] ++ bases ++ [.glue (← mark ":")]
  let body ← suite statements header
  return .plain .classDef (decorated decorators header :: header.parts ++ [body])

def decoratorLines (depth : Nat) : Nat → Script (List Node)
  | 0 => failure
  | fuel + 1 => do
    if ← atWords depth ["@"] then
      let line ← next
      let parts ← ofOption <| whole (do
        let sign ← opening "@"
        return [.glue sign, ← named (rulesFor line)]) line.tokens
      return .glue line.before :: parts ++ .glue line.trail :: (← decoratorLines depth fuel)
    else return []

def definition (depth : Nat) (decorators : List Node) : Script Node := do
  if ← atWords depth ["def", "async"] then function statements decorators
  else if ← atWords depth ["class"] then classDef statements decorators
  else failure

def asyncStatement (depth : Nat) : Script Node := do
  let second := (← peek).bind fun line => (line.tokens.drop 1).head?
  if second.any (tokenIs "def") then function statements []
  else if second.any (tokenIs "for") then forLoop statements depth
  else if second.any (tokenIs "with") then withBlock statements
  else failure

def statement (depth : Nat) : Script Node := do
  if ← atWords depth ["if"] then ifChain statements depth
  else if ← atWords depth ["while"] then whileLoop statements depth
  else if ← atWords depth ["for"] then forLoop statements depth
  else if ← atWords depth ["with"] then withBlock statements
  else if ← atWords depth ["try"] then tryBlock statements depth
  else if ← atWords depth ["def", "class"] then definition statements depth []
  else if ← atWords depth ["async"] then asyncStatement statements depth
  else if ← atWords depth ["@"] then
    let decorators ← decoratorLines depth ((← get).lines.length + 1)
    definition statements depth decorators
  else if ← atWords depth ["match"] then matchBlock statements depth <|> simpleLine
  else simpleLine

end

/-- The statements of a depth, up to the first line that is less deep. -/
def statements : Nat → Nat → Script (List Node)
  | 0, _ => failure
  | fuel + 1, depth => do
    match ← peek with
    | none => return []
    | some line =>
      if line.depth < depth then return []
      else if line.depth = depth then
        let first ← statement (statements fuel) depth
        return first :: (← statements fuel depth)
      else failure

end Graft.Grammar
