import Graft.Source.Gap

set_option autoImplicit false

/-!
Numbers. Digits may be grouped by single underscores; no digits may follow a leading zero unless
the number has a fraction, an exponent or an imaginary unit.
-/
namespace Graft.Source.Number

abbrev Scan := Option (Chars × Chars)

/-- Digits of a class; each underscore stands between two of them. -/
def group (digit : Char → Bool) : Chars → Scan
  | '_' :: c :: rest =>
    if digit c then (group digit rest).map fun (taken, after) => ('_' :: c :: taken, after)
    else none
  | ['_'] => none
  | c :: rest =>
    if digit c then (group digit rest).map fun (taken, after) => (c :: taken, after)
    else some ([], c :: rest)
  | [] => some ([], [])

/-- Digits after a base prefix. -/
def inBase (digit : Char → Bool) (text : Chars) : Scan := do
  let (taken, rest) ← group digit text
  if taken.isEmpty || rest.head?.any Char.isDigit then none else some (taken, rest)

def isHex (c : Char) : Bool :=
  c.isDigit || ('a' ≤ c && c ≤ 'f') || ('A' ≤ c && c ≤ 'F')

def isOctal (c : Char) : Bool := '0' ≤ c && c ≤ '7'

def isBinary (c : Char) : Bool := c == '0' || c == '1'

def isOneOf (choices : List Char) (c : Char) : Bool := choices.contains c

def digits (text : Chars) : Scan :=
  match text with
  | c :: _ => if c.isDigit then group Char.isDigit text else some ([], text)
  | [] => some ([], [])

def fraction (text : Chars) : Scan :=
  match text with
  | '.' :: rest => do
    let (taken, rest) ← digits rest
    some ('.' :: taken, rest)
  | _ => some ([], text)

/-- A lone `e` belongs to what follows the number. -/
def exponent (text : Chars) : Scan :=
  match text with
  | c :: rest =>
    if isOneOf ['e', 'E'] c then
      match rest with
      | d :: rest' =>
        if isOneOf ['+', '-'] d then do
          let (taken, after) ← digits rest'
          if taken.isEmpty then none else some (c :: d :: taken, after)
        else do
          let (taken, after) ← digits rest
          if taken.isEmpty then some ([], text) else some (c :: taken, after)
      | [] => some ([], text)
    else some ([], text)
  | [] => some ([], text)

def unit (text : Chars) : Chars × Chars :=
  match text with
  | c :: rest => if isOneOf ['j', 'J'] c then ([c], rest) else ([], text)
  | [] => ([], [])

/-- The rest of a number after its whole part. -/
def afterWhole (whole text : Chars) : Scan := do
  let (point, rest) ← fraction text
  let (power, rest) ← exponent rest
  let (imaginary, rest) := unit rest
  some (whole ++ point ++ power ++ imaginary, rest)

def isNonzeroWhole (whole : Chars) : Bool :=
  whole.any fun c => c != '0' && c != '_'

def scan (text : Chars) : Scan :=
  match text with
  | '0' :: c :: rest =>
    let base := fun digit =>
      (inBase digit rest).map fun (taken, after) => ('0' :: c :: taken, after)
    if isOneOf ['x', 'X'] c then base isHex
    else if isOneOf ['o', 'O'] c then base isOctal
    else if isOneOf ['b', 'B'] c then base isBinary
    else do
      let (whole, after) ← digits text
      let (taken, after') ← afterWhole whole after
      if isNonzeroWhole whole && taken.length == whole.length then none else some (taken, after')
  | _ => do
    let (whole, rest) ← digits text
    afterWhole whole rest

end Graft.Source.Number
