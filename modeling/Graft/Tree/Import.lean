import Graft.Export
import Graft.Module
import Graft.Tree.DottedName

set_option autoImplicit false

/-!
Import statements, and the section of them that a module begins with.
-/
namespace Graft

/-- What an import statement names: modules, or exports of one module. `source` is the dotted text
before the names, with the leading points of a relative import. -/
structure Clause where
  source : String
  names : List (String × Option String)
  deriving DecidableEq, Repr

namespace Node

def boundName? : Node → Option String
  | .branch .binder _ [_, .name _ id] => some id.text
  | _ => none

def aliasNames? : Node → Option (String × Option String)
  | .branch .alias _ [imported, binder, _] => some (imported.fullName, binder.boundName?)
  | _ => none

/-- The number of points before the module of an import. -/
def dotCount (dots : Node) : Nat :=
  (dots.leaves.map fun
    | .text "." => 1
    | .text "..." => 3
    | _ => 0).foldr (· + ·) 0

def isImportFrom (node : Node) : Bool := node.isA .importFrom

def isImport (node : Node) : Bool := node.isA .importing || node.isImportFrom

/-- The names of an import statement. A star names none. -/
def clause? : Node → Option Clause
  | .branch .importing _ parts => some ⟨"", parts.filterMap aliasNames?⟩
  | .branch .importFrom _ [_, dots, module, _, aliases, _] =>
    some ⟨String.ofList (List.replicate dots.dotCount '.') ++ module.fullName,
      aliases.children.filterMap aliasNames?⟩
  | _ => none

/-- The exports that an absolute import of names gives, each with its local name. -/
def exports : Node → List (Export × String)
  | .branch .importFrom _ [_, dots, module, _, aliases, _] =>
    if dots.dotCount = 0 && !module.isAbsent then
      (aliases.children.filterMap aliasNames?).map fun (exported, bound) =>
        (⟨module.fullName, exported⟩, bound.getD exported)
    else []
  | _ => []

/-- The small statements of a line. -/
def smalls : Node → List Node
  | .branch .line _ parts => parts.filter fun part => !part.isA .glue
  | _ => []

/-- The statements of a block, but not of a suite on one line. -/
def blockStatements : Node → List Node
  | .branch .block _ parts => parts.filter fun part => !part.isA .glue
  | _ => []

def isStringExpression : Node → Bool
  | .branch .expression _ [value] => value.isA .string || value.isA .concatenation
  | _ => false

/-- A line that is a string alone. -/
def isStringLine (statement : Node) : Bool :=
  match statement.smalls with
  | [small] => small.isStringExpression
  | _ => false

/-- A docstring comes before all other statements. -/
def isDocstring (index : Nat) (statement : Node) : Bool :=
  index = 0 && statement.isStringLine

def isImportLine (statement : Node) : Bool :=
  !statement.smalls.isEmpty && statement.smalls.all isImport

/-- A `try` block that guards nothing but imports. -/
def isImportBlock : Node → Bool
  | .branch .tryBlock _ (_ :: _ :: body :: _) =>
    !body.blockStatements.isEmpty && body.blockStatements.all isImportLine
  | _ => false

def isLeading (index : Nat) (statement : Node) : Bool :=
  statement.isDocstring index || statement.isImportLine || statement.isImportBlock

/-- The lines that a leading statement consists of: itself, or those that it guards. -/
def guardedLines : Located → List Located
  | (address, .branch .tryBlock parens (first :: second :: body :: rest)) =>
    if body.isA .block then body.childrenAt (address ++ [2])
    else [(address, .branch .tryBlock parens (first :: second :: body :: rest))]
  | other => [other]

/-- The imports of names in a leading statement. -/
def importFroms (statement : Located) : List Located :=
  (guardedLines statement).flatMap fun (address, line) =>
    if line.isA .line then (line.childrenAt address).filter (·.2.isImportFrom) else []

end Node

/-- The length of the leading section of some statements, the first of which has an index. -/
def leadingFrom : Nat → List Node → Nat
  | _, [] => 0
  | index, statement :: rest =>
    if statement.isLeading index then leadingFrom (index + 1) rest + 1 else 0

namespace Module

/-- The place after the docstring and the imports that a module begins with. -/
def leadingEnd (module : Module) : Nat := leadingFrom 0 module.body

def statementsAt (module : Module) : List Located :=
  Node.childrenFrom [] 1 module.body

def leadingImports (module : Module) : List Located :=
  (module.statementsAt.take module.leadingEnd).flatMap Node.importFroms

/-- Writes statements after the leading section. -/
def insertLeading (module : Module) (statements : List Node) : Module :=
  { module with
    body := module.body.take module.leadingEnd ++ statements ++
      module.body.drop module.leadingEnd }

end Module

end Graft
