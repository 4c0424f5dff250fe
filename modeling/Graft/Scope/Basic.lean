import Graft.Tree.Import

set_option autoImplicit false

/-!
Scopes and the names they bind. A scope counts the binding constructs it has finished; bindings and
uses are stamped with that count, and in their own scope only earlier bindings are seen.
-/
namespace Graft.Scope

inductive Region where
  | module
  | function
  | classBody
  | comprehension
  /-- Type parameters, and the values of type aliases. -/
  | generic
  deriving DecidableEq, Repr

/-- The binding of a name. `origin` is the statement that makes it, unless that is written inside a
string; `clause` is there for imports. -/
structure Binding where
  name : String
  stamp : Nat
  clause : Option Clause
  origin : Option Address
  deriving DecidableEq, Repr

structure Frame where
  region : Region
  parent : Nat
  clock : Nat
  bindings : List Binding
  /-- Names that are declared to belong to another scope. -/
  redirects : List (String × Nat)
  deriving DecidableEq, Repr

/-- A call that has been seen, its scope, and the count of that scope. -/
structure Site where
  call : Address
  scope : Nat
  stamp : Nat
  deriving DecidableEq, Repr

/-- The scopes of a module, by their numbers, and the calls in them. -/
structure Survey where
  frames : List Frame
  sites : List Site
  deriving DecidableEq, Repr

namespace Survey

def initial : Survey := ⟨[⟨.module, 0, 0, [], []⟩], []⟩

def frame (survey : Survey) (scope : Nat) : Frame :=
  survey.frames.getD scope ⟨.module, 0, 0, [], []⟩

def updateFrame (survey : Survey) (scope : Nat) (change : Frame → Frame) : Survey :=
  { survey with frames := survey.frames.modify scope change }

/-- A class is not visible from the scopes inside it, except for one of type parameters. -/
def hides (survey : Survey) (scope reader : Nat) : Bool :=
  (survey.frame scope).region = .classBody && scope != reader &&
    !((survey.frame reader).region = .generic && (survey.frame reader).parent == scope)

/-- The scope that has a name, as a reader in scope `reader` sees it, and its bindings there. -/
def resolveFrom (survey : Survey) (name : String) (reader : Nat) : Nat → Nat → Nat × List Binding
  | 0, scope => (scope, [])
  | fuel + 1, scope =>
    let frame := survey.frame scope
    if survey.hides scope reader then survey.resolveFrom name reader fuel frame.parent
    else
      match frame.redirects.lookup name with
      | some target => survey.resolveFrom name reader fuel target
      | none =>
        let own := frame.bindings.filter fun binding => binding.name == name
        if own.isEmpty && scope != 0 then survey.resolveFrom name reader fuel frame.parent
        else (scope, own)

def resolve (survey : Survey) (name : String) (scope : Nat) : Nat × List Binding :=
  survey.resolveFrom name scope (survey.frames.length + 1) scope

def knows (survey : Survey) (name : String) (scope : Nat) : Bool :=
  !(survey.resolve name scope).2.isEmpty

/-- The scope that a binding goes to. -/
def targetOf (survey : Survey) (name : String) : Nat → Nat → Nat
  | 0, scope => scope
  | fuel + 1, scope =>
    match (survey.frame scope).redirects.lookup name with
    | some target => survey.targetOf name fuel (outward survey fuel target)
    | none => scope
where
  /-- The nearest scope that is no class. -/
  outward (survey : Survey) : Nat → Nat → Nat
    | 0, scope => scope
    | fuel + 1, scope =>
      if (survey.frame scope).region = .classBody then
        outward survey fuel (survey.frame scope).parent
      else scope

def bind (survey : Survey) (scope : Nat) (name : String) (clause : Option Clause)
    (origin : Option Address) : Survey :=
  let target := survey.targetOf name (survey.frames.length + 1) scope
  survey.updateFrame target fun frame =>
    { frame with bindings := frame.bindings ++ [⟨name, frame.clock, clause, origin⟩] }

/-- A binding construct of the scope is finished. -/
def tick (survey : Survey) (scope : Nat) : Survey :=
  survey.updateFrame scope fun frame => { frame with clock := frame.clock + 1 }

def redirect (survey : Survey) (scope : Nat) (name : String) (target : Nat) : Survey :=
  survey.updateFrame scope fun frame =>
    { frame with redirects := (name, target) :: frame.redirects }

def openScope (survey : Survey) (region : Region) (parent : Nat) : Nat × Survey :=
  (survey.frames.length, { survey with frames := survey.frames ++ [⟨region, parent, 0, [], []⟩] })

def record (survey : Survey) (call : Address) (scope : Nat) : Survey :=
  { survey with sites := ⟨call, scope, (survey.frame scope).clock⟩ :: survey.sites }

def siteOf? (survey : Survey) (call : Address) : Option Site :=
  survey.sites.find? fun site => site.call == call

/-- Every binding of a name, in all scopes. -/
def bindingsOf (survey : Survey) (name : String) : List Binding :=
  survey.frames.flatMap fun frame => frame.bindings.filter fun binding => binding.name == name

end Survey

end Graft.Scope
