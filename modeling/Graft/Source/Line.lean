import Graft.Source.Token

set_option autoImplicit false

/-!
Logical lines: the tokens between two line ends that matter, with the blank lines and comments
above them, and their depth in the blocks of the source.
-/
namespace Graft.Source

/-- A line without tokens. -/
structure Blank where
  text : Chars
  ending : Leaf

def Blank.leaves (blank : Blank) : List Leaf := textLeaf blank.text ++ [blank.ending]

/-- A blank line reaches a margin if it is indented by it. -/
def Blank.reaches (margin : Chars) (blank : Blank) : Bool :=
  (dropPrefix? margin blank.text).isSome

structure Line where
  above : List Blank
  depth : Nat
  margin : Chars
  tokens : List Token
  trail : List Leaf

def marginLeaf (margin : Chars) : List Leaf :=
  if margin.isEmpty then [] else [.margin (String.ofList margin)]

/-- What stands above a line's first token, and before it. -/
def Line.before (line : Line) : List Leaf :=
  line.above.flatMap Blank.leaves ++ marginLeaf line.margin

/-- Blank lines belong to the block above them up to the last one that reaches its margin. -/
def splitFooter (margin : Chars) (blanks : List Blank) : List Blank × List Blank :=
  let after := (blanks.reverse.takeWhile fun blank => !blank.reaches margin).length
  (blanks.take (blanks.length - after), blanks.drop (blanks.length - after))

/-- The indentation of a line. Columns count tabs to multiples of eight, and narrow columns count
them as one: blocks must agree on both. -/
structure Indent where
  column : Nat
  narrow : Nat
  text : Chars
  deriving DecidableEq

namespace Indent

def zero : Indent := ⟨0, 0, []⟩

/-- A form feed starts the count again. The blanks before the first hidden line end, if there are
any, stand for the whole indentation. -/
def measure (column narrow : Nat) (hidden : Nat) (text : Chars) : Chars → Indent
  | [] => if hidden = 0 then ⟨column, narrow, text⟩ else ⟨hidden, hidden, text⟩
  | c :: rest =>
    let text' := text ++ [c]
    if c = ' ' then measure (column + 1) (narrow + 1) hidden text' rest
    else if c = '\t' then measure ((column / 8 + 1) * 8) (narrow + 1) hidden text' rest
    else if c = '\x0c' then measure 0 0 hidden text' rest
    else if isBreak c then measure column narrow hidden [] rest
    else measure column narrow (if hidden = 0 then column else hidden) text' rest

def ofBlanks (text : Chars) : Indent := measure 0 0 0 [] text

/-- The open blocks, innermost first. -/
abbrev Stack := List Indent

def top (stack : Stack) : Indent := stack.headD zero

def agrees (a b : Indent) : Bool := a.column == b.column && a.narrow == b.narrow

/-- The open blocks at a line of an indentation. -/
def enter? (indent : Indent) (stack : Stack) : Option Stack :=
  let inner := top stack
  if indent.column = inner.column then if agrees indent inner then some stack else none
  else if inner.column < indent.column then
    if inner.narrow < indent.narrow && (dropPrefix? inner.text indent.text).isSome then
      some (indent :: stack)
    else none
  else
    let outer := stack.dropWhile fun block => indent.column < block.column
    if agrees indent (top outer) then some outer else none

end Indent

/-- A source, line by line; `below` follows the last line with tokens. -/
structure Lines where
  lines : List Line
  below : List Blank

def linesFrom? (lineEnd : String) : Nat → Indent.Stack → List Blank → Chars → Option Lines
  | 0, _, _, _ => none
  | _, _, above, [] => some ⟨[], above⟩
  | fuel + 1, stack, above, text =>
    let (blank, rest) := blanks text
    let (remark, after) := comment rest
    match breakAt? after, after with
    | some (written, after), _ =>
      linesFrom? lineEnd fuel stack (above ++ [⟨blank ++ remark, breakLeaf lineEnd written⟩]) after
    | none, [] => some ⟨[], above ++ [⟨blank ++ remark, .lineEnd none⟩]⟩
    | none, _ => do
      let stack ← Indent.enter? (Indent.ofBlanks blank) stack
      let margin := (Indent.top stack).text
      let (tokens, trail, rest) ← tokens? ⟨lineEnd, margin⟩ (rest.length + 1) [] rest
      let others ← linesFrom? lineEnd fuel stack [] rest
      some ⟨⟨above, stack.length, margin, tokens, trail⟩ :: others.lines, others.below⟩

def lines? (lineEnd : String) (text : Chars) : Option Lines :=
  linesFrom? lineEnd (text.length + 1) [] [] text

end Graft.Source
