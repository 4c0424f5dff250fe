import Graft.Tree.Basic

set_option autoImplicit false

/-!
Gaps between tokens: blanks, joined lines, comments and, inside brackets, line ends.
-/
namespace Graft.Source

abbrev Chars := List Char

def isSpace (c : Char) : Bool := c == ' ' || c == '\t' || c == '\x0c'

def isBreak (c : Char) : Bool := c == '\n' || c == '\r'

/-- Blanks, and line ends hidden by a backslash. The last line end of a source cannot be hidden. -/
def blanks : Chars → Chars × Chars
  | '\\' :: '\r' :: '\n' :: rest =>
    if rest.isEmpty then ([], ['\\', '\r', '\n'])
    else
      let (gap, after) := blanks rest
      ('\\' :: '\r' :: '\n' :: gap, after)
  | '\\' :: c :: rest =>
    if isBreak c && !rest.isEmpty then
      let (gap, after) := blanks rest
      ('\\' :: c :: gap, after)
    else ([], '\\' :: c :: rest)
  | c :: rest =>
    if isSpace c then
      let (gap, after) := blanks rest
      (c :: gap, after)
    else ([], c :: rest)
  | [] => ([], [])

def comment : Chars → Chars × Chars
  | '#' :: rest => ('#' :: rest.takeWhile (!isBreak ·), rest.dropWhile (!isBreak ·))
  | other => ([], other)

def breakAt? : Chars → Option (Chars × Chars)
  | '\r' :: '\n' :: rest => some (['\r', '\n'], rest)
  | c :: rest => if isBreak c then some ([c], rest) else none
  | [] => none

/-- The first line end of a source. -/
def firstBreak : Chars → String
  | [] => "\n"
  | c :: rest =>
    match breakAt? (c :: rest) with
    | some (written, _) => String.ofList written
    | none => firstBreak rest

def textLeaf (written : Chars) : List Leaf :=
  if written.isEmpty then [] else [.text (String.ofList written)]

/-- The line end `standard` is the module's, and needs no text of its own. -/
def breakLeaf (standard : String) (written : Chars) : Leaf :=
  let text := String.ofList written
  .lineEnd (if text = standard then none else some text)

def dropPrefix? : Chars → Chars → Option Chars
  | [], rest => some rest
  | _ :: _, [] => none
  | c :: wanted, d :: rest => if c = d then dropPrefix? wanted rest else none

/-- What a scan of one line knows: the module's line end and the indentation of the block. -/
structure Setup where
  lineEnd : String
  margin : Chars

/-- The gap before a token on the same line. -/
def gapOnLine (text : Chars) : List Leaf × Chars :=
  let (blank, rest) := blanks text
  let (remark, rest) := comment rest
  (textLeaf (blank ++ remark), rest)

/-- The gap before a token inside brackets, where lines may end. -/
def gapInside (setup : Setup) : Nat → Chars → List Leaf × Chars
  | 0, text => ([], text)
  | fuel + 1, text =>
    let (blank, rest) := gapOnLine text
    match breakAt? rest with
    | none => (blank, rest)
    | some (written, rest) =>
      let (margin, rest) :=
        match dropPrefix? setup.margin rest with
        | some rest' =>
          (if setup.margin.isEmpty then [] else [Leaf.margin (String.ofList setup.margin)], rest')
        | none => ([], rest)
      let (others, rest) := gapInside setup fuel rest
      (blank ++ breakLeaf setup.lineEnd written :: margin ++ others, rest)

end Graft.Source
