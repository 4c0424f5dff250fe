import Graft.Proofs.Scope.Bindings
import Graft.Proofs.Scope.Names

set_option autoImplicit false

/-!
Keywords in dotted names. A source cannot name one in an import, so no import that a survey knows of, in
the module or in a string, binds a name with a keyword among its segments.
-/
namespace Graft

/-- A dotted text with no keyword among its segments. -/
def Dotted.isPlain (text : String) : Bool := (segments text).all fun segment => !isKeyword segment

theorem Dotted.isPlain_append_point (base name : String) :
    isPlain (base ++ "." ++ name) = (isPlain base && isPlain name) := by
  simp [isPlain, segments_append_point]

theorem Dotted.isPlain_of_isIdentifier {text : String} (valid : isIdentifier text = true) :
    isPlain text = !isKeyword text := by
  simp [isPlain, segments_of_isIdentifier valid]

def Clause.IsPlain (clause : Clause) : Prop := ∀ name ∈ clause.boundNames, Dotted.isPlain name = true

namespace Node

def ImportsPlainly (node : Node) : Prop :=
  ∀ path part, node.part? path = some part → ∀ clause, part.clause? = some clause → clause.IsPlain

/-- A node with no statement below it imports plainly if it does so itself. -/
theorem importsPlainly_of_apart {node : Node} (wellFormed : node.wellFormed = true)
    (apart : ∀ child ∈ node.children, child.isStatement = false)
    (plain : ∀ clause, node.clause? = some clause → clause.IsPlain) : node.ImportsPlainly := by
  intro path part found clause said
  cases path with
  | nil => exact plain clause (Option.some.inj found ▸ said)
  | cons i rest =>
    rw [part?_cons, Option.bind_eq_some_iff] at found
    obtain ⟨child, here, found⟩ := found
    have inner : child.wellFormed = true :=
      wellFormed_part? wellFormed (show node.part? [i] = some child by simp [part?_cons, here])
    have expression := isStatement_part? inner (apart child (List.mem_of_getElem? here)) found
    exact absurd (Scope.clause?_of_not_isStatement expression) (by simp [said])

end Node

namespace Grammar

open Scope

def SpellsPlainly (node : Node) : Prop := ∀ part ∈ prefixes node.fullName, Dotted.isPlain part = true

def NamesPlainly (item : Node) : Prop :=
  ∀ {imported bound}, item.aliasNames? = some (imported, bound) →
    (∀ part ∈ prefixes imported, Dotted.isPlain part = true) ∧
      ∀ name, bound = some name → Dotted.isPlain name = true

theorem name_isPlain : Yields Reader.name fun node =>
    ∃ id, node = .name {} id ∧ Dotted.isPlain id.text = true := by
  refine .bind (P := fun id => Dotted.isPlain id.text = true) ?_ fun id plain => .pure ⟨id, rfl, plain⟩
  refine .step fun text => .ite (fun _ => .failure) fun word => ?_
  cases spelled : Identifier.ofString text with
  | error fault => exact .failure
  | ok id =>
    refine .pure ?_
    rw [Dotted.isPlain_of_isIdentifier id.valid, Identifier.text_of_ofString spelled]
    simpa using word

theorem SpellsPlainly.name {parens : Parens} {id : Identifier} (plain : Dotted.isPlain id.text = true) :
    SpellsPlainly (.name parens id) := by
  intro part mem
  rw [Node.fullName, prefixes_of_isIdentifier id.valid, List.mem_singleton] at mem
  exact mem ▸ plain

theorem SpellsPlainly.attribute {base dot : Node} {parens : Parens} {id : Identifier} (plain : SpellsPlainly base)
    (named : Dotted.isPlain id.text = true) :
    SpellsPlainly (.plain .member [base, dot, .name parens id]) := by
  intro part mem
  by_cases empty : base.fullName = ""
  next => exact plain part (by simpa [Node.fullName, Node.plain, empty] using mem)
  next =>
    simp only [Node.fullName, Node.plain, empty, if_false, prefixes_append_point _ id.valid, List.mem_cons] at mem
    obtain rfl | mem := mem
    next => rw [Dotted.isPlain_append_point, plain _ (mem_prefixes _), named, Bool.and_self]
    next => exact plain part mem

theorem dottedName_isPlain : Yields dottedName SpellsPlainly := by
  -- Each round adds one attribute to a base that is plain already.
  have dots (fuel : Nat) {base : Node} (plain : SpellsPlainly base) : Yields (dots fuel base) SpellsPlainly := by
    induction fuel generalizing base with
    | zero => exact .pure plain
    | succ fuel ih =>
      refine .step fun _ => .ite (fun _ => .bind ?_ fun _ => ih) fun _ => .pure plain
      refine .step fun _ => .bind name_isPlain fun _ named => .pure ?_
      obtain ⟨id, rfl, word⟩ := named
      exact plain.attribute word
  refine .step fun _ => .bind name_isPlain fun _ named => ?_
  obtain ⟨id, rfl, word⟩ := named
  exact dots _ (.name word)

theorem importAlias_isPlain {imported : Reader Node} (each : Yields imported SpellsPlainly)
    (comma : Reader (List Leaf)) : Yields (importAlias imported comma) NamesPlainly := by
  have binder : Yields (binderAs Reader.name) fun node =>
      ∀ name, node.boundName? = some name → Dotted.isPlain name = true := by
    refine .step fun _ => .ite (fun _ => .step fun _ => .bind name_isPlain fun _ named => .pure ?_)
      fun _ => .pure fun name bound => absurd bound (by simp [Node.absent, Node.plain, Node.boundName?])
    obtain ⟨id, rfl, word⟩ := named
    exact fun name bound => Option.some.inj bound ▸ word
  refine (importAlias_yields each binder).imp ?_
  rintro _ ⟨name, binder, last, rfl, named, bound⟩ imported found same
  obtain ⟨rfl, rfl⟩ := Prod.mk.inj (Option.some.inj same)
  exact ⟨named, bound⟩

theorem NamesPlainly.glue (leaves : List Leaf) : NamesPlainly (.glue leaves) :=
  fun named => absurd named (by simp [Node.glue, Node.plain, Node.aliasNames?])

theorem importsPlainly_of_items {node : Node} (wellFormed : node.wellFormed = true)
    (apart : ∀ child ∈ node.children, child.isStatement = false)
    (each : ∀ item ∈ node.importItems, NamesPlainly item) : node.ImportsPlainly :=
  Node.importsPlainly_of_apart wellFormed apart fun _ said =>
    boundNames_of_items said fun item mem _ _ named => each item mem named

theorem importing_isPlain : Yields importing Node.ImportsPlainly := by
  have items := importing_yields fun comma => (importAlias_yields dottedName_yields aliasBinder_yields).and
    (importAlias_isPlain dottedName_isPlain comma)
  refine (importing_wellFormed.and items).imp ?_
  rintro _ ⟨wellFormed, word, items, rfl, each⟩
  refine importsPlainly_of_items wellFormed ?_ ?_
  next =>
    simp only [Node.plain, Node.children_branch, List.mem_cons, forall_eq_or_imp]
    refine ⟨rfl, fun item mem => ?_⟩
    obtain ⟨⟨name, binder, last, rfl, -⟩, -⟩ := each item mem
    rfl
  next =>
    simp only [Node.plain, Node.importItems, List.mem_cons, forall_eq_or_imp]
    exact ⟨NamesPlainly.glue word, fun item mem => (each item mem).2⟩

theorem importFrom_isPlain : Yields importFrom Node.ImportsPlainly := by
  have name : Yields Reader.name SpellsPlainly := name_isPlain.imp fun _ named =>
    named.elim fun _ named => named.1 ▸ .name named.2
  refine (importFrom_wellFormed.and (importFrom_yields (importAlias_isPlain name))).imp ?_
  rintro _ ⟨wellFormed, fromWord, dots, module, word, aliases, closing, rfl, source, imported⟩
  refine importsPlainly_of_items wellFormed ?_ ?_
  next =>
    have group : aliases.isStatement = false := by obtain rfl | ⟨items, rfl, -⟩ := imported <;> rfl
    have glue (leaves : List Leaf) : (Node.glue leaves).isStatement = false := rfl
    simp [Node.plain, glue, source.1.isStatement, group]
  next =>
    obtain rfl | ⟨items, rfl, each⟩ := imported
    next => simp [Node.plain, Node.importItems, Node.absent, Node.children]
    next => exact each

theorem importsPlainly_inherits : Inherits Node.ImportsPlainly where
  part part path found stands clause said := by
    have expression := Node.isStatement_part? part.wellFormed part.isStatement stands
    exact absurd (clause?_of_not_isStatement expression) (by simp [said])
  free := by
    intro kind children free each path part found clause said
    -- A free node is no import itself, so that only its parts matter.
    cases path with
    | nil =>
      obtain rfl := Option.some.inj found
      have none : (Node.plain kind children).clause? = none :=
        clause?_of_kind (by rintro rfl; exact absurd free (by decide))
          (by rintro rfl; exact absurd free (by decide)) {} children
      exact absurd (none.symm.trans said) (by simp)
    | cons i rest =>
      rw [Node.part?_cons, Option.bind_eq_some_iff] at found
      obtain ⟨child, here, found⟩ := found
      exact each child (List.mem_of_getElem? here) rest part found clause said
  importing := importing_isPlain
  importFrom := importFrom_isPlain

end Grammar

theorem Module.importsPlainly {source : String} {module : Module} (parsed : parse? source = some module) :
    module.root.ImportsPlainly :=
  root_inherits Grammar.importsPlainly_inherits (body_inherits Grammar.importsPlainly_inherits parsed)

namespace Scope

/-- An import may bind a plain name, and anything else any name. -/
def Plainly (name : String) (clause : Option Clause) : Prop := clause.isSome = true → Dotted.isPlain name = true

theorem Plainly.blank : Plainly "" none := fun none => absurd none (by simp)

theorem speaks_plainly {node : Node} (plain : node.ImportsPlainly) (path : Address) (part : Node)
    (found : node.part? path = some part) : Speaks Plainly part where
  text none := absurd none (by simp)
  lookup _ _ _ _ none := absurd none (by simp)
  bound clause said name mem _ := plain path part found clause said name mem

theorem readText_plainly (fuel : Nat) (text : List Char) :
    (readText fuel text).Keeps (fun survey => ∀ binding, survey.Binds binding →
      Plainly binding.name binding.clause) none :=
  readText_keepsWhere (fun _ => True) (fun _ _ module _ spells reads =>
    stepOf_keepsWhere (Survey.allowed_keptWhere module.root Plainly) .blank module.root
      (fun _ _ _ _ _ => reads _ trivial) (by simp)
      (speaks_plainly (Module.importsPlainly (Module.parse?_of_read spells).1))) fuel trivial

theorem isPlain_of_binds {source : String} {module : Module} (parsed : Module.parse? source = some module)
    {survey : Survey} (surveyed : Scope.survey module = .ok survey) {binding : Binding}
    (binds : survey.Binds binding) (imported : binding.clause.isSome = true) :
    Dotted.isPlain binding.name = true := by
  have keeps (fuel : Nat) : (stepOf (readText fuel) module.root).Keeps (fun survey =>
      ∀ binding, survey.Binds binding → Plainly binding.name binding.clause) (some []) :=
    stepOf_keepsWhere (Survey.allowed_keptWhere module.root Plainly) .blank module.root
      (fun _ _ _ _ _ => readText_plainly fuel _) (by simp) (speaks_plainly (Module.importsPlainly parsed))
  exact keeps _ _ _ _ rfl (fun _ none => absurd none Survey.not_binds_initial) surveyed binding binds imported

end Scope

end Graft
