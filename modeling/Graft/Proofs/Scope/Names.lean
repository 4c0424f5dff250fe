import Graft.Proofs.Scope.Mirror
import Graft.Proofs.Identifier

set_option autoImplicit false

/-!
The names that a dotted text is looked up by, and names that no lookup in a tree can be for.
-/
namespace Graft

open Node

theorem Node.mem_nodes_of_child {root node child : Node} (mem : node ∈ root.nodes)
    (below : child ∈ node.children) : child ∈ root.nodes := by
  obtain ⟨address, found⟩ := mem_nodes.1 mem
  obtain ⟨i, here⟩ := List.getElem?_of_mem below
  exact mem_nodes.2 ⟨address ++ [i], by rw [part?_concat, found, Option.bind_some, here]⟩

theorem Node.mem_identifiers {root : Node} {parens : Parens} {id : Identifier}
    (mem : .name parens id ∈ root.nodes) : id.text ∈ root.identifiers :=
  List.mem_filterMap.2 ⟨_, mem, rfl⟩

/-- The items of an import statement. -/
def Node.importItems : Node → List Node
  | .branch .importing _ parts => parts
  | .branch .importFrom _ [_, _, _, _, aliases, _] => aliases.children
  | _ => []

theorem Node.names_eq_importItems {node : Node} {clause : Clause} (said : node.clause? = some clause) :
    clause.names = node.importItems.filterMap aliasNames? := by
  unfold clause? at said
  split at said
  next => exact (Option.some.inj said) ▸ rfl
  next => exact (Option.some.inj said) ▸ rfl
  next => exact absurd said (by simp)

theorem Node.mem_nodes_of_importItems {root node item : Node} (mem : node ∈ root.nodes)
    (below : item ∈ node.importItems) : item ∈ root.nodes := by
  unfold importItems at below
  split at below
  next => exact mem_nodes_of_child mem below
  next aliases _ =>
    have group := mem_nodes_of_child mem (show aliases ∈ _ by simp [children])
    exact mem_nodes_of_child group below
  next => exact absurd below (by simp)

namespace Scope

theorem prefixes_of_isIdentifier {text : String} (valid : isIdentifier text = true) :
    prefixes text = [text] := by
  simp [prefixes, Dotted.segments_of_isIdentifier valid, Dotted.ofSegments, Dotted.join]

theorem exists_prefixes (text : String) : ∃ shorter, prefixes text = text :: shorter := by
  obtain ⟨n, count⟩ := Nat.exists_eq_add_one.2 (List.length_pos_iff.2 (Dotted.segments_ne_nil text))
  unfold prefixes
  dsimp only
  rw [count, List.range_succ, List.reverse_append, List.reverse_singleton,
    List.singleton_append, List.map_cons, List.take_of_length_le (by omega), Dotted.ofSegments_segments]
  exact ⟨_, rfl⟩

theorem mem_prefixes (text : String) : text ∈ prefixes text := by
  obtain ⟨shorter, whole⟩ := exists_prefixes text
  rw [whole]
  exact List.mem_cons_self

theorem prefixes_append_point (base : String) {name : String} (valid : isIdentifier name = true) :
    prefixes (base ++ "." ++ name) = (base ++ "." ++ name) :: prefixes base := by
  have whole := Dotted.ofSegments_segments (base ++ "." ++ name)
  have parts : Dotted.segments (base ++ "." ++ name) = Dotted.segments base ++ [name] := by
    rw [Dotted.segments_append_point, Dotted.segments_of_isIdentifier valid]
  unfold prefixes
  rw [parts] at whole ⊢
  simp only [List.length_append, List.length_singleton, List.range_succ, List.reverse_append,
    List.reverse_singleton, List.singleton_append, List.map_cons, List.cons.injEq]
  refine ⟨?_, List.map_congr_left fun n mem => ?_⟩
  next => rw [List.take_of_length_le (by simp), whole]
  next =>
    have inside := List.mem_range.1 (List.mem_reverse.1 mem)
    rw [List.take_append_of_le_length (by omega)]

theorem agreed?_eq_some {referents : List Referent} {qualified : String}
    (agrees : agreed? referents = some qualified) :
    ∀ referent ∈ referents, referent = .imported qualified := by
  unfold agreed? at agrees
  split at agrees
  next name rest =>
    split at agrees
    next all =>
      obtain rfl := Option.some.inj agrees
      simpa using all
    next => exact absurd agrees (by simp)
  next => exact absurd agrees (by simp)

theorem agreed?_eq_some_iff {referents : List Referent} {qualified : String} :
    agreed? referents = some qualified ↔
      referents ≠ [] ∧ ∀ referent ∈ referents, referent = .imported qualified := by
  constructor
  next =>
    intro agrees
    refine ⟨?_, agreed?_eq_some agrees⟩
    rintro rfl
    exact absurd agrees (by simp [agreed?])
  next =>
    rintro ⟨some, same⟩
    obtain ⟨first, rest, rfl⟩ := List.exists_cons_of_ne_nil some
    obtain rfl := same first (by simp)
    have others : rest.all (· = .imported qualified) = true := by
      simpa using fun referent mem => same referent (by simp [mem])
    rw [agreed?, if_pos others]

/-- What an import binds, item by item: the dotted prefixes of a name, or what the name is bound to. -/
theorem boundNames_of_items {Spelled : String → Prop} {node : Node} {clause : Clause}
    (said : node.clause? = some clause)
    (each : ∀ item ∈ node.importItems, ∀ {imported bound}, item.aliasNames? = some (imported, bound) →
      (∀ part ∈ prefixes imported, Spelled part) ∧ ∀ name, bound = some name → Spelled name) :
    ∀ name ∈ clause.boundNames, Spelled name := by
  intro name bound
  obtain ⟨⟨imported, binder⟩, among, here⟩ := List.mem_flatMap.1 bound
  rw [names_eq_importItems said] at among
  obtain ⟨item, inner, named⟩ := List.mem_filterMap.1 among
  obtain ⟨parts, other⟩ := each item inner named
  cases binder with
  | none => exact parts name here
  | some binder => exact List.mem_singleton.1 here ▸ other binder rfl

/-- Names that a tree does not mention. What has no name is looked up as `None`, so that is none of
them. -/
structure Strange (root : Node) (names : List String) : Prop where
  valid : ∀ name ∈ names, isIdentifier name = true
  word : "None" ∉ names
  apart : ∀ name ∈ names, name ∉ root.identifiers

/-- A lookup of a text that finds none of these names. -/
def Avoids (names : List String) (text : String) : Prop := ∀ part ∈ prefixes text, part ∉ names

theorem Avoids.not_mem {names : List String} {text : String} (avoids : Avoids names text) : text ∉ names :=
  avoids text (mem_prefixes text)

theorem none_not_mem {names : List String} (words : ∀ name ∈ names, isKeyword name = false) :
    "None" ∉ names := fun known => absurd (words "None" known) (by decide)

namespace Strange

variable {root : Node} {names : List String} (strange : Strange root names)

include strange

theorem empty : Avoids names "" := by
  intro part mem known
  obtain rfl : part = "" := by simpa [prefixes, Dotted.segments, Dotted.split, Dotted.ofSegments, Dotted.join] using mem
  exact absurd (strange.valid "" known) (by decide)

theorem name {parens : Parens} {id : Identifier} (mem : .name parens id ∈ root.nodes) :
    Avoids names id.text := by
  rw [Avoids, prefixes_of_isIdentifier id.valid]
  simp only [List.mem_singleton, forall_eq]
  exact fun known => strange.apart id.text known (mem_identifiers mem)

theorem append {base : String} (avoids : Avoids names base) {name : String} (valid : isIdentifier name = true) :
    Avoids names (base ++ "." ++ name) := by
  rw [Avoids, prefixes_append_point base valid]
  simp only [List.mem_cons, forall_eq_or_imp]
  refine ⟨fun known => ?_, avoids⟩
  exact point_not_mem (strange.valid _ known) (by simp)

theorem fullName {node : Node} (mem : node ∈ root.nodes) : Avoids names node.fullName := by
  fun_induction Node.fullName node with
  | case1 parens id => exact strange.name mem
  | case2 => exact strange.empty
  | case3 parens base dot around id text inner ih =>
    exact strange.append (ih (mem_nodes_of_child mem (by simp [children]))) id.valid
  | case4 => exact strange.empty

theorem none : Avoids names "None" := by
  rw [Avoids, prefixes_of_isIdentifier (by decide +kernel)]
  simp only [List.mem_singleton, forall_eq]
  exact strange.word

theorem looseName {node : Node} (mem : node ∈ root.nodes) {text : String}
    (named : looseName? node = some text) : Avoids names text := by
  fun_induction looseName? node generalizing text with
  | case1 parens id => exact Option.some.inj named ▸ strange.name mem
  | case2 parens base dot around id ih =>
    obtain rfl := Option.some.inj named
    refine strange.append ?_ id.valid
    cases below : looseName? base with
    | none => exact strange.none
    | some text => exact ih (mem_nodes_of_child mem (by simp [children])) below
  | case3 parens callee opening arguments closing ih =>
    exact ih (mem_nodes_of_child mem (by simp [children])) named
  | case4 parens base opening items closing ih =>
    exact ih (mem_nodes_of_child mem (by simp [children])) named
  | case5 => exact absurd named (by simp)

theorem aliasNames {node : Node} (mem : node ∈ root.nodes) {imported : String} {bound : Option String}
    (found : node.aliasNames? = some (imported, bound)) :
    Avoids names imported ∧ ∀ name, bound = some name → name ∉ names := by
  unfold aliasNames? at found
  split at found
  next first binder last =>
    obtain ⟨rfl, rfl⟩ := Prod.mk.inj (Option.some.inj found)
    refine ⟨strange.fullName (mem_nodes_of_child mem (by simp [children])), fun name spelled => ?_⟩
    have inner := mem_nodes_of_child mem (show binder ∈ _ by simp [children])
    unfold boundName? at spelled
    split at spelled
    next around id =>
      obtain rfl := Option.some.inj spelled
      have spelling := mem_nodes_of_child inner (show Node.name around id ∈ _ by simp [children])
      exact (strange.name spelling).not_mem
    next => exact absurd spelled (by simp)
  next => exact absurd found (by simp)

theorem boundNames {node : Node} (mem : node ∈ root.nodes) {clause : Clause}
    (said : node.clause? = some clause) : ∀ name ∈ clause.boundNames, name ∉ names :=
  boundNames_of_items said fun _ inner _ _ named =>
    strange.aliasNames (mem_nodes_of_importItems mem inner) named

/-- Nothing that a survey of the tree binds or looks up is one of the names. -/
theorem speaks {node : Node} (mem : node ∈ root.nodes) : Speaks (fun name _ => name ∉ names) node where
  text := by
    cases node with
    | name parens id => exact (strange.name mem).not_mem
    | leaf l => exact strange.empty.not_mem
    | branch kind parens children => exact strange.empty.not_mem
  lookup _ named := strange.looseName mem named
  bound _ said := strange.boundNames mem said

end Strange

end Scope

end Graft
