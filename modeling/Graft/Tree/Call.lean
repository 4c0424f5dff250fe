import Graft.Tree.Basic

set_option autoImplicit false

/-!
Calls and their arguments, and the place for a configuration among them.
-/
namespace Graft

/-- An argument of a call. A comma that it owns has the gaps around it; between neighbours that own
none, one is written. `gap` stands after the comma. -/
structure Argument where
  star : List Leaf := []
  /-- The keyword with its equals sign, or nothing. -/
  keyword : Option (Identifier × List Leaf) := none
  value : Node
  comma : List Leaf := []
  gap : List Leaf := []

namespace Argument

def ofValue (value : Node) : Argument := { value }

def keywordNode : Option (Identifier × List Leaf) → Node
  | none => .absent
  | some (id, equals) => .plain .keyword [.name {} id, .glue equals]

def toNode (argument : Argument) : Node :=
  .plain .argument [.glue argument.star, keywordNode argument.keyword, argument.value,
    .glue argument.comma, .glue argument.gap]

def keywordOf : Node → Option (Identifier × List Leaf)
  | .branch .keyword _ [.name _ id, equals] => some (id, equals.leaves)
  | _ => none

def ofNode? : Node → Option Argument
  | .branch .argument _ [star, keyword, value, comma, gap] =>
    some ⟨star.leaves, keywordOf keyword, value, comma.leaves, gap.leaves⟩
  | _ => none

def isPositional (argument : Argument) : Bool :=
  argument.keyword.isNone && argument.star.isEmpty

def isStarred (argument : Argument) : Bool := !argument.star.isEmpty

def hasKeyword (word : String) (argument : Argument) : Bool :=
  argument.keyword.any fun keyword => keyword.1.text == word

/-- Writes a comma after every argument but the last that owns none. -/
def withCommas : List Argument → List Argument
  | [] => []
  | [last] => [last]
  | first :: rest =>
    (if first.comma.isEmpty then { first with comma := [.text ", "] } else first) ::
      withCommas rest

end Argument

structure Call where
  parens : Parens := {}
  callee : Node
  opening : List Leaf := [.text "("]
  arguments : List Argument
  closing : List Leaf := [.text ")"]

namespace Call

def toNode (call : Call) : Node :=
  .branch .call call.parens [call.callee, .glue call.opening,
    .plain .arguments ((Argument.withCommas call.arguments).map Argument.toNode),
    .glue call.closing]

def ofNode? : Node → Option Call
  | .branch .call parens [callee, opening, arguments, closing] =>
    some ⟨parens, callee, opening.leaves, arguments.children.filterMap Argument.ofNode?,
      closing.leaves⟩
  | _ => none

/-- The arguments before the first that has a keyword or a star. -/
def positional (call : Call) : List Argument :=
  call.arguments.takeWhile Argument.isPositional

/-- The second positional argument, or the first one named `props`. -/
def props? (call : Call) : Option Node :=
  match call.positional with
  | _ :: props :: _ => some props.value
  | _ => (call.arguments.find? (Argument.hasKeyword "props")).map (·.value)

def hasKeywords (call : Call) : Bool :=
  call.arguments.any fun argument => argument.keyword.isSome

def isConfigured (call : Call) : Bool :=
  2 < call.positional.length || call.arguments.any (Argument.hasKeyword "config")

def hasUnpacking (call : Call) : Bool :=
  call.arguments.any Argument.isStarred

/-- The place of the configuration among the positional arguments. -/
def configPlace : Nat := 2

def configWord : Identifier := ⟨"config", by decide +kernel⟩

def noneWord : Identifier := ⟨"None", by decide +kernel⟩

/-- Adds an argument at the end. It takes over the comma of the last one. -/
def append (arguments : List Argument) (added : Argument) : List Argument :=
  match arguments.getLast? with
  | none => [added]
  | some last =>
    if last.comma.isEmpty then arguments ++ [added]
    else arguments.dropLast ++ [{ last with comma := [] }, { added with comma := last.comma }]

def placeholders (count : Nat) : List Argument :=
  List.replicate count (.ofValue (.name {} noneWord))

/-- Gives a call its configuration: at the third place, with `None` for the places before it that
are empty, or as a keyword where other arguments leave no place. -/
def attach (call : Call) (config : Node) : Call :=
  let places := call.positional.length
  if places < configPlace ∧ places < call.arguments.length then
    let added : Argument :=
      { keyword := some (configWord, [.text "="]), value := config }
    { call with arguments := append call.arguments added }
  else
    let arguments := call.arguments ++ placeholders (configPlace - places)
    if arguments.length = configPlace then
      { call with arguments := append arguments (.ofValue config) }
    else
      { call with
        arguments :=
          arguments.take configPlace ++ .ofValue config :: arguments.drop configPlace }

end Call

end Graft
