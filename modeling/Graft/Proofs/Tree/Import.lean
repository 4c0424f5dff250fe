import Graft.Proofs.Module
import Graft.Proofs.Tree.Address
import Graft.Proofs.Tree.DottedName
import Graft.Tree.Import

set_option autoImplicit false

/-!
Imports of names: what they bind are identifiers, and those that a module begins with are parts of
its tree.
-/
namespace Graft

namespace Node

theorem boundName?_isIdentifier {node : Node} {bound : String} (found : node.boundName? = some bound) :
    isIdentifier bound = true := by
  unfold boundName? at found
  split at found
  next id => exact Option.some.inj found ▸ id.valid
  next => exact absurd found (by simp)

theorem aliasNames?_isIdentifier {node : Node} (named : node.isNameAlias = true)
    {names : String × Option String} (found : node.aliasNames? = some names) :
    isIdentifier names.1 = true ∧ isIdentifier (names.2.getD names.1) = true := by
  unfold aliasNames? at found
  split at found
  next imported binder last =>
    obtain rfl := Option.some.inj found
    cases imported with
    | name parens id =>
      refine ⟨id.valid, ?_⟩
      cases bound : binder.boundName? with
      | none => exact id.valid
      | some name => simpa [bound] using boundName?_isIdentifier bound
    | leaf l => simp [isNameAlias] at named
    | branch kind parens nodes => simp [isNameAlias] at named
  next => exact absurd found (by simp)

theorem isNameAlias_of_mem {parens : Parens} {word dots source between aliases closing item : Node}
    (wellFormed : (branch .importFrom parens
      [word, dots, source, between, aliases, closing]).wellFormed = true)
    (mem : item ∈ aliases.children) : item.isNameAlias = true := by
  obtain ⟨fits, each⟩ := (wellFormed_branch _ _ _).1 wellFormed
  obtain ⟨_, _, _, _, _, _, parts, -, -, -, -, group, -⟩ :=
    Shape.hasRoles_importFrom (Shape.hasRoles_of_fits fits)
  simp only [List.cons.injEq] at parts
  obtain ⟨-, -, -, -, rfl, -⟩ := parts
  obtain none | some := group
  next => simp [children_of_isAbsent none] at mem
  next =>
    obtain ⟨around, nodes, rfl⟩ := exists_branch some
    have inner : (branch .aliases around nodes).wellFormed = true := each _ (by simp)
    have roles := Shape.hasRoles_of_fits ((wellFormed_branch _ _ _).1 inner).1
    simp only [Shape.hasRoles, List.all_eq_true] at roles
    exact roles item mem

theorem exports_isIdentifier {node : Node} (wellFormed : node.wellFormed = true)
    {entry : Export × String} (mem : entry ∈ node.exports) :
    isIdentifier entry.1.name = true ∧ isIdentifier entry.2 = true := by
  unfold exports at mem
  split at mem
  next parens word dots source between aliases closing =>
    split at mem
    next =>
      obtain ⟨names, found, rfl⟩ := List.mem_map.1 mem
      obtain ⟨item, among, named⟩ := List.mem_filterMap.1 found
      exact aliasNames?_isIdentifier (isNameAlias_of_mem wellFormed among) named
    next => exact absurd mem (by simp)
  next => exact absurd mem (by simp)

/-- A path that passes through bundles of statements. -/
def Bundled : Address → Node → Prop
  | [], _ => True
  | i :: rest, node => (∃ kind : Kind, kind.isBundle = true ∧ node.isA kind = true) ∧
      ∃ child, node.children[i]? = some child ∧ Bundled rest child

theorem bundled_append {above below : Address} {node part : Node} (head : Bundled above node)
    (found : node.part? above = some part) (tail : Bundled below part) : Bundled (above ++ below) node := by
  induction above generalizing node with
  | nil => exact Option.some.inj found ▸ tail
  | cons i rest ih =>
    obtain ⟨bundle, child, here, head⟩ := head
    rw [part?_cons, here, Option.bind_some] at found
    exact ⟨bundle, child, here, ih head found⟩

theorem bundled_single {node child : Node} {kind : Kind} (bundle : kind.isBundle = true)
    (is : node.isA kind = true) {i : Nat} (here : node.children[i]? = some child) : Bundled [i] node :=
  ⟨⟨kind, bundle, is⟩, child, here, trivial⟩

theorem part?_of_mem_guardedLines {address : Address} {statement : Node} {located : Located}
    (mem : located ∈ guardedLines (address, statement)) :
    ∃ path, located.1 = address ++ path ∧ statement.part? path = some located.2 ∧
      Bundled path statement := by
  have itself (same : located = (address, statement)) :
      ∃ path, located.1 = address ++ path ∧ statement.part? path = some located.2 ∧
        Bundled path statement :=
    ⟨[], by simp [same], by simp [same], trivial⟩
  unfold guardedLines at mem
  split at mem
  next place parens first second body rest same =>
    obtain ⟨rfl, rfl⟩ := Prod.mk.inj same
    split at mem
    next block =>
      obtain ⟨i, below, found⟩ := mem_childrenAt.1 mem
      exact ⟨[2, i], by simp [below], by simp [part?_cons, children_branch, found],
        ⟨.tryBlock, rfl, rfl⟩, body, rfl, bundled_single rfl block found⟩
    next => exact itself (List.mem_singleton.1 mem)
  next => exact itself (List.mem_singleton.1 mem)

theorem part?_of_mem_importFroms {address : Address} {statement : Node} {located : Located}
    (mem : located ∈ importFroms (address, statement)) :
    ∃ path, located.1 = address ++ path ∧ statement.part? path = some located.2 ∧
      Bundled path statement ∧ located.2.isImportFrom = true := by
  obtain ⟨⟨place, line⟩, guarded, mem⟩ := List.mem_flatMap.1 mem
  have inLine : ∃ i, located.1 = place ++ [i] ∧ line.children[i]? = some located.2 ∧
      line.isA .line = true ∧ located.2.isImportFrom = true := by
    simp only at mem
    split at mem
    next is =>
      obtain ⟨among, imports⟩ := List.mem_filter.1 mem
      obtain ⟨i, below, here⟩ := mem_childrenAt.1 among
      exact ⟨i, below, here, is, imports⟩
    next => exact absurd mem (by simp)
  obtain ⟨i, below, here, is, imports⟩ := inLine
  obtain ⟨path, above, found, bundled⟩ := part?_of_mem_guardedLines guarded
  simp only at above found
  exact ⟨path ++ [i], by simp [below, above], by simp [part?_append, found, part?_cons, here],
    bundled_append bundled found (bundled_single rfl is here), imports⟩

end Node

namespace Module

theorem mem_statementsAt {module : Module} {located : Located} :
    located ∈ module.statementsAt ↔
      ∃ i, located.1 = [i + 1] ∧ module.body[i]? = some located.2 := by
  simp [statementsAt, Node.mem_childrenFrom, Nat.add_comm]

theorem part?_statement {module : Module} {i : Nat} {statement : Node}
    (found : module.body[i]? = some statement) : module.root.part? [i + 1] = some statement := by
  have bound := (List.getElem?_eq_some_iff.1 found).1
  have first : (module.body ++ [Node.glue module.footer])[i]? = some statement := by
    rw [List.getElem?_append_left bound, found]
  simp [root, Node.plain, Node.part?_cons, Node.children_branch, first]

theorem part?_of_mem_leadingImports {module : Module} {located : Located}
    (mem : located ∈ module.leadingImports) : module.root.part? located.1 = some located.2 ∧
      Node.Bundled located.1 module.root ∧ located.2.isImportFrom = true := by
  obtain ⟨⟨address, statement⟩, leading, mem⟩ := List.mem_flatMap.1 mem
  obtain ⟨i, rfl, found⟩ := mem_statementsAt.1 (List.mem_of_mem_take leading)
  obtain ⟨path, place, part, bundled, imports⟩ := Node.part?_of_mem_importFroms mem
  have top := part?_statement found
  refine ⟨?_, ?_, imports⟩
  next =>
    rw [place, Node.part?_append, top]
    exact part
  next =>
    have here : module.root.children[i + 1]? = some statement := by
      rw [← top, ← List.nil_append [i + 1], Node.part?_concat]
      rfl
    rw [place]
    exact Node.bundled_append (Node.bundled_single (rfl : Kind.module.isBundle = true) rfl here) top bundled

theorem wellFormed_of_mem_leadingImports {module : Module} (wellFormed : module.wellFormed = true)
    {located : Located} (mem : located ∈ module.leadingImports) : located.2.wellFormed = true :=
  Node.wellFormed_part? (wellFormed_root wellFormed) (part?_of_mem_leadingImports mem).1

end Module

end Graft
