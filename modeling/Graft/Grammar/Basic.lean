import Graft.Source.Token

set_option autoImplicit false

/-!
Reading the tokens of a line. A reader of a node leaves out the gap before its first token: who
calls it puts the gap where it belongs.
-/
namespace Graft.Grammar

open Source

abbrev Reader := StateT (List Token) Option

/-- What the rules need of each other. Every rule takes a token before it comes back to one. -/
inductive Goal where
  | expression
  | disjunction
  | inversion
  | bitwiseOr
  | factor
  | primary
  | field
  | pattern

abbrev Rules := Goal → Reader Node

namespace Reader

def tokenIs (text : String) (token : Token) : Bool :=
  (token.sort = .operator || token.sort = .name) && token.text == text

def peek : Reader (Option Token) := do
  return (← get).head?

def atWord (text : String) : Reader Bool := do
  return (← get).head?.any (tokenIs text)

def atAny (texts : List String) : Reader Bool := do
  return (← get).head?.any fun token => texts.any fun text => tokenIs text token

/-- The token after the next one. -/
def thenWord (text : String) : Reader Bool := do
  return ((← get).drop 1).head?.any (tokenIs text)

def atEnd : Reader Bool := do
  return (← get).isEmpty

/-- The gap before the next token. -/
def gap : Reader (List Leaf) := do
  return ((← get).head?.map Token.gap).getD []

def skip : Reader Unit :=
  modify List.tail

/-- A word or an operator, without the gap before it. -/
def word (text : String) : Reader (List Leaf) := do
  if ← atWord text then
    skip
    return [.text text]
  else failure

/-- A word or an operator, and the gap before it. -/
def mark (text : String) : Reader (List Leaf) := do
  return (← gap) ++ (← word text)

/-- As `mark`, with the gap after it too. -/
def sign (text : String) : Reader (List Leaf) := do
  return (← mark text) ++ (← gap)

/-- As `word`, with the gap after it too. -/
def opening (text : String) : Reader (List Leaf) := do
  return (← word text) ++ (← gap)

/-- The first of some words, as `opening` reads it. -/
def openingOf (texts : List String) : Reader (List Leaf) := do
  match ← peek with
  | some token =>
    if texts.any (tokenIs · token) then
      skip
      return .text token.text :: (← gap)
    else failure
  | none => failure

/-- The first of some words, as `sign` reads it. -/
def signOf (texts : List String) : Reader (List Leaf) := do
  return (← gap) ++ (← openingOf texts)

def sort? (sort : TokenSort) : Reader String := do
  match ← peek with
  | some token =>
    if token.sort = sort then
      skip
      return token.text
    else failure
  | none => failure

def atSort (sort : TokenSort) : Reader Bool := do
  return (← get).head?.any (·.sort = sort)

/-- An identifier that is no keyword. -/
def identifier : Reader Identifier := do
  let text ← sort? .name
  if isKeyword text then failure
  else
    match Identifier.ofString text with
    | .ok id => return id
    | .error _ => failure

def name : Reader Node := do
  return .name {} (← identifier)

def isPlainName (token : Token) : Bool := token.sort = .name && !isKeyword token.text

def atName : Reader Bool := do
  return (← get).head?.any isPlainName

/-- The constants that are spelled like names. -/
def constant : Reader Node := do
  if ← atAny ["None", "True", "False"] then
    match Identifier.ofString (← sort? .name) with
    | .ok id => return .name {} id
    | .error _ => failure
  else failure

/-- As many as there are. An item that takes no token is the last. -/
def many {A : Type} (item : Reader A) : Reader (List A) := do
  go ((← get).length + 1)
where
  go : Nat → Reader (List A)
    | 0 => return []
    | fuel + 1 => do
      let before := (← get).length
      match ← optional item with
      | none => return []
      | some first =>
        if (← get).length < before then return first :: (← go fuel)
        else return [first]

/-- Reads to the last token of a line. -/
def whole {A : Type} (reader : Reader A) (tokens : List Token) : Option A := do
  let (result, rest) ← reader.run tokens
  if rest.isEmpty then some result else none

/-- Items with signs between them, joined to the left. -/
def chain (kind : Kind) (operator : Reader (List Leaf)) (operand : Reader Node) : Reader Node := do
  let first ← operand
  let others ← many do
    let joint ← operator
    return (joint, ← operand)
  return others.foldl (fun left (joint, right) => .plain kind [left, .glue joint, right]) first

end Reader

end Graft.Grammar
