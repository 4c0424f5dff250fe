import Graft.Source.Token

set_option autoImplicit false

/-!
What a literal of a string or of bytes stands for. Unknown escapes of a string keep their
backslash; only escapes that promise a number or a name can be broken.
-/
namespace Graft.Literal

open Source

inductive Value where
  | text (chars : List Char)
  | bytes (values : List Nat)
  deriving DecidableEq, Repr

inductive Fault where
  | brokenEscape
  /-- Bytes are written in ASCII alone. -/
  | wideBytes
  deriving DecidableEq, Repr

/-- Line ends inside a literal are line feeds. -/
def plainBreaks : Chars → Chars
  | '\r' :: '\n' :: rest => '\n' :: plainBreaks rest
  | '\r' :: rest => '\n' :: plainBreaks rest
  | c :: rest => c :: plainBreaks rest
  | [] => []

def digitValue? (base : Nat) (c : Char) : Option Nat :=
  let n := c.toNat
  let digit :=
    if '0' ≤ c ∧ c ≤ '9' then some (n - 48)
    else if 'a' ≤ c ∧ c ≤ 'f' then some (n - 87)
    else if 'A' ≤ c ∧ c ≤ 'F' then some (n - 55)
    else none
  digit.filter (· < base)

/-- Exactly `count` hexadecimal digits. -/
def hexNumber? : Nat → Nat → Chars → Option (Nat × Chars)
  | 0, value, rest => some (value, rest)
  | _, _, [] => none
  | count + 1, value, c :: rest =>
    (digitValue? 16 c).bind fun digit => hexNumber? count (value * 16 + digit) rest

/-- At most `count` octal digits. -/
def octalNumber : Nat → Nat → Chars → Nat × Chars
  | 0, value, rest => (value, rest)
  | _, value, [] => (value, [])
  | count + 1, value, c :: rest =>
    match digitValue? 8 c with
    | some digit => octalNumber count (value * 8 + digit) rest
    | none => (value, c :: rest)

def simpleEscapes : List (Char × Char) :=
  [('\\', '\\'), (apostrophe, apostrophe), (quotation, quotation), ('a', '\x07'), ('b', '\x08'),
    ('f', '\x0c'), ('n', '\n'), ('r', '\r'), ('t', '\t'), ('v', '\x0b')]

def hexWidth? (bytes : Bool) (c : Char) : Option Nat :=
  if c = 'x' then some 2
  else if bytes then none
  else if c = 'u' then some 4
  else if c = 'U' then some 8
  else none

/-- The replacement character stands for code points that are no characters, and for characters
that are written by their name. -/
def replacement : Char := '\ufffd'

def charOf (code : Nat) : Char :=
  if 0xD800 ≤ code ∧ code ≤ 0xDFFF then replacement else Char.ofNat code

/-- A character's name in braces. -/
def afterName? : Chars → Option Chars
  | '{' :: rest =>
    match rest.dropWhile (· != '}') with
    | _ :: after => if after.length + 1 = rest.length then none else some after
    | [] => none
  | _ => none

/-- The codes of what an escape stands for, and the text after it. -/
def escape (bytes : Bool) : Chars → Except Fault (List Nat × Chars)
  | [] => .ok (['\\'.toNat], [])
  | c :: rest =>
    if c = '\n' then .ok ([], rest)
    else
      match simpleEscapes.lookup c, hexWidth? bytes c with
      | some plain, _ => .ok ([plain.toNat], rest)
      | none, some width =>
        match hexNumber? width 0 rest with
        | some (code, after) =>
          if code < 0x110000 then .ok ([code], after) else .error .brokenEscape
        | none => .error .brokenEscape
      | none, none =>
        if (digitValue? 8 c).isSome then
          let (code, after) := octalNumber 3 0 (c :: rest)
          .ok ([if bytes then code % 256 else code], after)
        else if c = 'N' && !bytes then
          match afterName? rest with
          | some after => .ok ([replacement.toNat], after)
          | none => .error .brokenEscape
        else .ok (['\\'.toNat, c.toNat], rest)

def codes (raw bytes : Bool) : Nat → Chars → Except Fault (List Nat)
  | 0, _ => .ok []
  | _, [] => .ok []
  | fuel + 1, c :: rest =>
    if c = '\\' && !raw then do
      let (first, after) ← escape bytes rest
      return first ++ (← codes raw bytes fuel after)
    else do
      return c.toNat :: (← codes raw bytes fuel rest)

/-- The letters in front of a literal's quotes, in lower case. -/
def letters (written : String) : Chars :=
  (written.toList.takeWhile (!isQuote ·)).map Char.toLower

/-- The value of a literal as it is written, letters and quotes included. -/
def decode (written : String) : Except Fault Value :=
  match quoteAt? false (written.toList.dropWhile (!isQuote ·)) with
  | none => .ok (.text [])
  | some (quote, rest) =>
    let body := plainBreaks (rest.take (rest.length - quote.chars.length))
    let bytes := (letters written).contains 'b'
    if bytes && body.any isWide then .error .wideBytes
    else do
      let codes ← codes ((letters written).contains 'r') bytes body.length body
      return if bytes then .bytes codes else .text (codes.map charOf)

end Graft.Literal
