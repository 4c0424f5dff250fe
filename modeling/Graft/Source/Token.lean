import Graft.Source.Number

set_option autoImplicit false

/-!
Tokens of a line. A stack of frames says what the scan is inside of: brackets, the text of a
formatted literal, one of its replacement fields, or the format of such a field.
-/
namespace Graft.Source

/-- The quotes of a literal. -/
structure Quote where
  mark : Char
  triple : Bool
  raw : Bool
  deriving DecidableEq

def Quote.chars (quote : Quote) : Chars :=
  if quote.triple then [quote.mark, quote.mark, quote.mark] else [quote.mark]

inductive Frame where
  | bracket (closing : Char)
  | literal (quote : Quote)
  | field
  | format
  deriving DecidableEq

inductive TokenSort where
  | name
  | number
  | string
  | operator
  | literalStart
  | literalText
  | literalEnd
  deriving DecidableEq, Repr

structure Token where
  sort : TokenSort
  text : String
  gap : List Leaf
  deriving DecidableEq, Repr

/-- A token without its gap, the frames after it, and the text after it. -/
structure Taken where
  sort : TokenSort
  text : Chars
  frames : List Frame
  rest : Chars

def apostrophe : Char := '\x27'

def quotation : Char := '\x22'

def isQuote (c : Char) : Bool := c == apostrophe || c == quotation

def isWide (c : Char) : Bool := 128 ≤ c.toNat

def quoteAt? (raw : Bool) : Chars → Option (Quote × Chars)
  | c :: d :: e :: rest =>
    if isQuote c then
      if d = c ∧ e = c then some (⟨c, true, raw⟩, rest) else some (⟨c, false, raw⟩, d :: e :: rest)
    else none
  | c :: rest => if isQuote c then some (⟨c, false, raw⟩, rest) else none
  | [] => none

/-- The rest of a plain literal, closing quotes included. -/
def plainText (quote : Quote) : Chars → Option (Chars × Chars)
  | [] => none
  | '\\' :: '\r' :: '\n' :: rest =>
    (plainText quote rest).map fun (taken, after) => ('\\' :: '\r' :: '\n' :: taken, after)
  | '\\' :: c :: rest =>
    (plainText quote rest).map fun (taken, after) => ('\\' :: c :: taken, after)
  | c :: rest =>
    match dropPrefix? quote.chars (c :: rest) with
    | some after => some (quote.chars, after)
    | none =>
      if isBreak c && !quote.triple then none
      else (plainText quote rest).map fun (taken, after) => (c :: taken, after)

/-- The text of a formatted literal up to a field or the closing quotes. Doubled braces are text;
`named` is set inside the braces of a character's name. -/
def fieldText (quote : Quote) (named : Bool) : Chars → Option (Chars × Chars)
  | [] => none
  | '\\' :: rest =>
    if quote.raw then
      match rest with
      | c :: rest' =>
        if isQuote c then
          (fieldText quote named rest').map fun (taken, after) => ('\\' :: c :: taken, after)
        else (fieldText quote named (c :: rest')).map fun (taken, after) => ('\\' :: taken, after)
      | [] => none
    else
      match rest with
      | 'N' :: '{' :: rest' =>
        (fieldText quote true rest').map fun (taken, after) =>
          ('\\' :: 'N' :: '{' :: taken, after)
      | '\r' :: '\n' :: rest' =>
        (fieldText quote named rest').map fun (taken, after) =>
          ('\\' :: '\r' :: '\n' :: taken, after)
      | c :: rest' =>
        (fieldText quote named rest').map fun (taken, after) => ('\\' :: c :: taken, after)
      | [] => none
  | '{' :: '{' :: rest =>
    (fieldText quote named rest).map fun (taken, after) => ('{' :: '{' :: taken, after)
  | '{' :: rest => some ([], '{' :: rest)
  | '}' :: rest =>
    if named then (fieldText quote false rest).map fun (taken, after) => ('}' :: taken, after)
    else
      match rest with
      | '}' :: rest' =>
        (fieldText quote named rest').map fun (taken, after) => ('}' :: '}' :: taken, after)
      | _ => none
  | c :: rest =>
    if (dropPrefix? quote.chars (c :: rest)).isSome then some ([], c :: rest)
    else if isBreak c && !quote.triple then none
    else (fieldText quote named rest).map fun (taken, after) => (c :: taken, after)

/-- The text of a format up to a brace. -/
def formatText (quote : Quote) : Chars → Option (Chars × Chars)
  | [] => none
  | '\\' :: c :: rest =>
    if (c = '{' || c = '}') || quote.raw then
      (formatText quote (c :: rest)).map fun (taken, after) => ('\\' :: taken, after)
    else (formatText quote rest).map fun (taken, after) => ('\\' :: c :: taken, after)
  | c :: rest =>
    if c = '{' || c = '}' then some ([], c :: rest)
    else if (dropPrefix? quote.chars (c :: rest)).isSome || (isBreak c && !quote.triple) then none
    else (formatText quote rest).map fun (taken, after) => (c :: taken, after)

def operators : List Chars :=
  ["**=", "//=", ">>=", "<<=", "...", "==", "!=", "<=", ">=", "<<", ">>", "**", "+=", "-=", "*=",
    "/=", "%=", "&=", "|=", "^=", "//", "@=", "->", ":=", "+", "-", "*", "/", "|", "&", "<", ">",
    "=", ".", "%", "~", "^", "@", ":", ",", ";"].map String.toList

def operatorAt? (text : Chars) : Option (Chars × Chars) :=
  operators.findSome? fun operator => (dropPrefix? operator text).map (operator, ·)

def closingOf? (c : Char) : Option Char :=
  if c = '(' then some ')' else if c = '[' then some ']' else if c = '{' then some '}' else none

def isClosing (c : Char) : Bool := c == ')' || c == ']' || c == '}'

/-- Brackets, and the marks that end parts of a replacement field. -/
def bracketAt? (frames : List Frame) : Chars → Option Taken
  | [] => none
  | c :: rest =>
    match closingOf? c with
    | some closing => some ⟨.operator, [c], .bracket closing :: frames, rest⟩
    | none =>
      match frames with
      | .bracket closing :: outer =>
        if c = closing then some ⟨.operator, [c], outer, rest⟩ else none
      | .field :: outer =>
        if c = '}' then some ⟨.operator, [c], outer, rest⟩
        else if c = ':' then some ⟨.operator, [c], .format :: frames, rest⟩
        else if c = '!' && rest.head? != some '=' then some ⟨.operator, [c], frames, rest⟩
        else none
      | _ => none

def isNameStart (c : Char) : Bool := isAsciiStart c || isWide c

def isNamePart (c : Char) : Bool := isAsciiPart c || isWide c

/-- The letters before the quotes of a literal. -/
inductive Lettering where
  | plain
  | formatted (raw : Bool)

def lettering? (name : Chars) : Option Lettering :=
  let lower := name.map Char.toLower
  if ["u", "b", "r", "br", "rb"].any (·.toList == lower) then some .plain
  else if ["f", "t"].any (·.toList == lower) then some (.formatted false)
  else if ["fr", "rf", "tr", "rt"].any (·.toList == lower) then some (.formatted true)
  else none

def literalAt? (letters : Chars) (kind : Lettering) (frames : List Frame) (text : Chars) :
    Option Taken :=
  match kind with
  | .plain => do
    let (quote, rest) ← quoteAt? false text
    let (taken, rest) ← plainText quote rest
    some ⟨.string, letters ++ quote.chars ++ taken, frames, rest⟩
  | .formatted raw => do
    let (quote, rest) ← quoteAt? raw text
    some ⟨.literalStart, letters ++ quote.chars, .literal quote :: frames, rest⟩

def wordAt? (frames : List Frame) (text : Chars) : Option Taken :=
  let name := text.takeWhile isNamePart
  let rest := text.dropWhile isNamePart
  match lettering? name, rest.head?.any isQuote with
  | some kind, true => literalAt? name kind frames rest
  | _, _ => if spellsIdentifier name then some ⟨.name, name, frames, rest⟩ else none

def startsNumber : Chars → Bool
  | '.' :: c :: _ => c.isDigit
  | c :: _ => c.isDigit
  | [] => false

/-- The next token outside the text of formatted literals. -/
def plainToken? (frames : List Frame) (text : Chars) : Option Taken :=
  match text with
  | [] => none
  | c :: _ =>
    if isNameStart c then wordAt? frames text
    else if isQuote c then literalAt? [] .plain frames text
    else if startsNumber text then
      (Number.scan text).map fun (taken, rest) => ⟨.number, taken, frames, rest⟩
    else
      match bracketAt? frames text with
      | some taken => some taken
      | none =>
        if isClosing c then none
        else (operatorAt? text).map fun (taken, rest) => ⟨.operator, taken, frames, rest⟩

def Frame.quote? : Frame → Option Quote
  | .literal quote => some quote
  | _ => none

/-- The next token inside the text of a formatted literal. -/
def literalToken? (quote : Quote) (outer : List Frame) (text : Chars) : Option Taken := do
  let frames := .literal quote :: outer
  let (taken, rest) ← fieldText quote false text
  if taken.isEmpty then
    match dropPrefix? quote.chars rest with
    | some rest => some ⟨.literalEnd, quote.chars, outer, rest⟩
    | none =>
      match rest with
      | '{' :: rest => some ⟨.operator, ['{'], .field :: frames, rest⟩
      | _ => none
  else some ⟨.literalText, taken, frames, rest⟩

/-- The next token inside a format. Its closing brace ends the field too. -/
def formatToken? (outer : List Frame) (text : Chars) : Option Taken := do
  let quote ← outer.findSome? Frame.quote?
  let frames := .format :: outer
  let (taken, rest) ← formatText quote text
  if taken.isEmpty then
    match rest with
    | '{' :: rest => some ⟨.operator, ['{'], .field :: frames, rest⟩
    | '}' :: rest => some ⟨.operator, ['}'], outer.tail, rest⟩
    | _ => none
  else some ⟨.literalText, taken, frames, rest⟩

def Taken.token (taken : Taken) (gap : List Leaf) : Token :=
  ⟨taken.sort, String.ofList taken.text, gap⟩

/-- The tokens of one logical line, the gap that ends it with its line end, and the text after
it. The end of the source ends a line as the module's line end would. -/
def tokens? (setup : Setup) : Nat → List Frame → Chars → Option (List Token × List Leaf × Chars)
  | 0, _, _ => none
  | fuel + 1, frames, text =>
    let next := fun (gap : List Leaf) (taken : Taken) => do
      let (others, trail, rest) ← tokens? setup fuel taken.frames taken.rest
      some (taken.token gap :: others, trail, rest)
    match frames with
    | .literal quote :: outer => (literalToken? quote outer text).bind (next [])
    | .format :: outer => (formatToken? outer text).bind (next [])
    | _ :: _ =>
      let (gap, rest) := gapInside setup fuel text
      (plainToken? frames rest).bind (next gap)
    | [] =>
      let (gap, rest) := gapOnLine text
      match rest, breakAt? rest with
      | [], _ => some ([], gap ++ [.lineEnd none], [])
      | _, some (written, rest) => some ([], gap ++ [breakLeaf setup.lineEnd written], rest)
      | _, none => (plainToken? [] rest).bind (next gap)

end Graft.Source
