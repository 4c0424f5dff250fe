import Graft.Fault
import Graft.Grammar.Block
import Graft.Tree.Walk

set_option autoImplicit false

/-!
Modules: statements between a header and a footer of comments and blank lines.
-/
namespace Graft

open Source

structure Module where
  header : List Leaf
  body : List Node
  footer : List Leaf
  /-- The line end that the source uses first. -/
  lineEnd : String
  /-- Whether the source ends in a line end. Where it does not, neither does any text made of it. -/
  finalBreak : Bool

namespace Module

def empty : Module := ⟨[], [], [], "\n", false⟩

/-- The part of a footer that is kept. Up to the first comment at the left margin, an indented line
takes away what stands above it, and a footer that ends in one is left out. -/
def keptFooter (blanks : List Blank) : List Blank :=
  let flush := fun (blank : Blank) => blank.text.head? == some '#'
  let indented := fun (blank : Blank) => blank.text.head?.any (· != '#')
  let reach := (blanks.takeWhile (!flush ·)).length
  let above := (blanks.take reach).reverse
  let depth := (above.takeWhile (!indented ·)).length
  if depth = reach then blanks
  else if depth = 0 ∧ reach = blanks.length then []
  else blanks.drop (reach - depth - 1)

def hasFinalBreak (text : Chars) : Bool :=
  match text.reverse with
  | '\n' :: '\\' :: _ => false
  | '\n' :: '\r' :: '\\' :: _ => false
  | '\n' :: _ => true
  | _ => false

def byteOrderMark : Char := '\ufeff'

def ofLines? (lineEnd : String) (finalBreak : Bool) (source : Lines) : Option Module := do
  let (header, lines) :=
    match source.lines with
    | [] => ([], [])
    | first :: rest => (first.above, { first with above := [] } :: rest)
  let fuel := lines.length + 2
  let (body, rest) ← (Grammar.statements fuel 0).run { source with lines }
  if !rest.lines.isEmpty then none
  else if body.isEmpty then
    some ⟨rest.below.flatMap Blank.leaves, [], [], lineEnd, finalBreak⟩
  else
    some ⟨header.flatMap Blank.leaves, body, (keptFooter rest.below).flatMap Blank.leaves, lineEnd,
      finalBreak⟩

/-- A byte order mark in front is not part of the source. -/
def parse? (source : String) : Option Module :=
  let text :=
    match source.toList with
    | [] => []
    | c :: rest => if c = byteOrderMark then rest else c :: rest
  let lineEnd := firstBreak text
  (lines? lineEnd text).bind (ofLines? lineEnd (hasFinalBreak text))

/-- A module without flaws. -/
def read (source : String) : Except Fault Module :=
  match parse? source with
  | none => .error .unparsable
  | some module =>
    match Node.flaw?.flawAmong module.body with
    | some flaw => .error (.flawed flaw)
    | none => .ok module

/-- The tree of a module. The address of its statement `i` is `[i + 1]`. -/
def root (module : Module) : Node :=
  .plain .module (.glue module.header :: module.body ++ [.glue module.footer])

def leaves (module : Module) : List Leaf :=
  module.header ++ Node.leaves.leavesAll module.body ++ module.footer

def layout (module : Module) : Layout := ⟨module.lineEnd, true⟩

/-- The text of a module. Without a final line end in the source, the last line end of a changed
module is left out too. -/
def source (module : Module) : String :=
  let leaves := module.leaves
  if module.finalBreak then
    if leaves.isEmpty then module.lineEnd else renderLeaves module.layout leaves
  else renderLeaves module.layout leaves.dropLast

/-- Where a part of a module begins, inside the brackets around it. -/
def positionOf (module : Module) (address : Address) : Position :=
  let before := renderLeaves module.layout (module.root.leavesBefore address)
  Position.start.advance before.toList

end Module

namespace Node

/-- Reads a text as one expression. -/
def parseExpression? (source : String) : Option Node := do
  let text := source.toList
  let lines ← lines? (firstBreak text) text
  match lines.lines with
  | [line] =>
    if line.depth = 0 then
      Grammar.Reader.whole (Grammar.starExpressions (Grammar.rulesFor line)) line.tokens
    else none
  | _ => none

/-- An expression without flaws. -/
def readExpression (source : String) : Except Fault Node :=
  match parseExpression? source with
  | none => .error .unparsable
  | some node =>
    match node.flaw? with
    | some flaw => .error (.flawed flaw)
    | none => .ok node

end Node

end Graft
