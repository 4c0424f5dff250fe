import Graft.Dotted
import Graft.Scope.Basic

set_option autoImplicit false

/-!
What a dotted name refers to, through the imports that its scope sees.
-/
namespace Graft.Scope

/-- What a name refers to: an export, by its qualified name, or something that is not imported. -/
inductive Referent where
  | imported (qualified : String)
  | other
  deriving DecidableEq, Repr

/-- The dotted prefixes of a text, longest first. -/
def prefixes (text : String) : List String :=
  let parts := Dotted.segments text
  (List.range parts.length).reverse.map fun n => Dotted.ofSegments (parts.take (n + 1))

/-- What follows a dotted prefix: nothing, or the points and segments after it. -/
def afterPrefix? (before text : String) : Option String :=
  match Source.dropPrefix? before.toList text.toList with
  | none => none
  | some [] => some ""
  | some (c :: rest) =>
    if c = '.' then some (String.ofList ((c :: rest).dropWhile (· = '.'))) else none

def withRest (name rest : String) : String := if rest = "" then name else name ++ "." ++ rest

/-- A name inside a module; a relative module ends in a point already. -/
def inside (source name : String) : String :=
  if source = "" then name
  else if source.toList.getLast? = some '.' then source ++ name
  else source ++ "." ++ name

/-- The qualified names that an import statement gives to a dotted text. -/
def importedNames (clause : Clause) (text : String) : List String :=
  clause.names.filterMap fun (name, bound) =>
    (prefixes name).findSome? fun part =>
      (afterPrefix? (bound.getD part) text).map (withRest (inside clause.source part))

def Binding.referents (binding : Binding) (text : String) : List Referent :=
  match binding.clause with
  | some clause => (importedNames clause text).map .imported
  | none => [.other]

/-- The text that a callee is looked up by. A call or an item is looked up by what is called or
subscripted. -/
def looseName? : Node → Option String
  | .name _ id => some id.text
  | .branch .member _ [base, _, .name _ id] =>
    some ((looseName? base).getD "None" ++ "." ++ id.text)
  | .branch .call _ [callee, _, _, _] => looseName? callee
  | .branch .subscript _ [base, _, _, _] => looseName? base
  | _ => none

namespace Survey

/-- Referents by the longest known prefix, whatever the order of bindings and uses. -/
def looseReferents (survey : Survey) (scope : Nat) (text : String) : List Referent :=
  match (prefixes text).find? fun part => survey.knows part scope with
  | some part => (survey.resolve part scope).2.flatMap fun binding => binding.referents text
  | none => []

/-- The bindings of a name that a use in a scope sees at a count. Where the scope binds it only
later, the use sees what surrounds the scope. -/
def seen (survey : Survey) (scope stamp : Nat) (name : String) : List Binding :=
  let (owner, bindings) := survey.resolve name scope
  let earlier :=
    if owner = scope then bindings.filter fun binding => binding.stamp < stamp else bindings
  if earlier.isEmpty && !bindings.isEmpty && scope != 0 then
    (survey.resolve name (survey.frame scope).parent).2
  else earlier

/-- What the callee of a call refers to. -/
def referents (survey : Survey) (site : Site) (callee : Node) : List Referent :=
  let text := callee.fullName
  if text != "" && survey.knows text site.scope then
    (survey.seen site.scope site.stamp text).flatMap fun binding => binding.referents text
  else
    match looseName? callee with
    | some text => survey.looseReferents site.scope text
    | none => []

end Survey

/-- The one export that all referents agree on. -/
def agreed? : List Referent → Option String
  | .imported name :: rest =>
    if rest.all (· = .imported name) then some name else none
  | _ => none

end Graft.Scope
