import Graft.Proofs.Grafting.Order
import Graft.Proofs.Tree.Guarded
import Graft.Registry
import Mathlib.Data.List.Forall2

set_option autoImplicit false

/-!
Modules that differ only in the layout of the bodies of their `try` statements: the same statements open them,
and small statements keep their order.
-/
namespace Graft

namespace Node

/-- Whether two trees are the same. -/
def same : Node → Node → Bool
  | .leaf first, .leaf second => first = second
  | .name parens id, .name other word => parens = other && id = word
  | .branch kind parens children, .branch sort other parts =>
    kind = sort && parens = other && sameAll children parts
  | _, _ => false
where
  sameAll : List Node → List Node → Bool
    | [], [] => true
    | node :: rest, other :: more => node.same other && sameAll rest more
    | _, _ => false

theorem same_iff (first second : Node) : first.same second = true ↔ first = second := by
  have all (nodes : List Node) (each : ∀ node ∈ nodes, ∀ other, node.same other = true ↔ node = other)
      (others : List Node) : same.sameAll nodes others = true ↔ nodes = others := by
    induction nodes generalizing others with
    | nil => cases others <;> simp [same.sameAll]
    | cons node rest ih =>
      cases others with
      | nil => simp [same.sameAll]
      | cons other more =>
        rw [same.sameAll, Bool.and_eq_true, each node (by simp), ih fun inner mem => each inner (by simp [mem])]
        simp
  induction first generalizing second with
  | leaf l => cases second <;> simp [same]
  | name parens id => cases second <;> simp [same]
  | branch kind parens children ih =>
    cases second with
    | leaf l => simp [same]
    | name other word => simp [same]
    | branch sort other parts => simp [same, all children ih, and_assoc]

instance : DecidableEq Node := fun first second => decidable_of_iff _ (same_iff first second)

/-- The same statement, or a `try` around the same small statements, with the same handlers. -/
def IsRelaid (first second : Node) : Prop :=
  first = second ∨ ∃ body ∈ first.tryBody?, ∃ other ∈ second.tryBody?,
    (first.isA .tryGroup = second.isA .tryGroup ∧ first.parens = second.parens ∧
      first.children.take 2 = second.children.take 2 ∧ first.children.drop 3 = second.children.drop 3) ∧
      (body.bodySmalls []).map (·.2) = (other.bodySmalls []).map (·.2)

instance (first second : Node) : Decidable (first.IsRelaid second) := by
  unfold IsRelaid
  infer_instance

/-- Two `try` statements around the same small statements. -/
structure Regrouped (first second body other : Node) : Prop where
  found : first.tryBody? = some body
  again : second.tryBody? = some other
  smalls : (body.bodySmalls []).map (·.2) = (other.bodySmalls []).map (·.2)
  parts : ∃ kind parens above word rest, (kind = Kind.tryBlock ∨ kind = .tryGroup) ∧
    first = .branch kind parens (above :: word :: body :: rest) ∧
      second = .branch kind parens (above :: word :: other :: rest)

theorem IsRelaid.cases {first second : Node} (relaid : first.IsRelaid second) :
    first.tryBody? = none ∧ second = first ∨ ∃ body other, Regrouped first second body other := by
  rcases relaid with rfl | ⟨body, found, other, again, ⟨group, around, front, back⟩, smalls⟩
  · cases found : first.tryBody? with
    | none => exact .inl ⟨rfl, rfl⟩
    | some body =>
      obtain ⟨kind, parens, above, word, rest, same, is, -⟩ := exists_of_tryBody? found
      exact .inr ⟨body, body, found, found, rfl, kind, parens, above, word, rest, is, same, same⟩
  · obtain ⟨kind, parens, above, word, rest, rfl, is, -⟩ := exists_of_tryBody? found
    obtain ⟨sort, opposite, before, colon, more, rfl, are, -⟩ := exists_of_tryBody? again
    obtain rfl : parens = opposite := around
    simp only [children_branch, List.take_succ_cons, List.take_zero, List.cons.injEq, and_true] at front
    obtain ⟨rfl, rfl⟩ := front
    obtain rfl : rest = more := back
    have kinds : sort = kind := by
      rcases is with rfl | rfl <;> rcases are with rfl | rfl <;> simp_all [isA]
    subst kinds
    exact .inr ⟨body, other, found, again, smalls, sort, parens, above, word, rest, is, rfl, rfl⟩

theorem Regrouped.guardsImports {first second body other : Node} (regrouped : Regrouped first second body other) :
    second.guardsImports = first.guardsImports := by
  have imports (node : Node) : ((node.bodySmalls []).all fun located => located.2.isImport) =
      ((node.bodySmalls []).map (·.2)).all isImport := by
    rw [List.all_map]
    rfl
  rw [Node.guardsImports, Node.guardsImports, regrouped.found, regrouped.again, Option.any_some, Option.any_some,
    imports, imports, regrouped.smalls]

theorem IsRelaid.opens {first second : Node} (relaid : first.IsRelaid second) (index : Nat) :
    second.opens index = first.opens index := by
  rcases relaid.cases with ⟨-, rfl⟩ | ⟨body, other, regrouped⟩
  · rfl
  · have before := smalls_of_tryBody? regrouped.found
    have after := smalls_of_tryBody? regrouped.again
    simp [Node.opens, isDocstring, isStringLine, isImportLine, before, after, regrouped.guardsImports]

end Node

/-- The statements of one module are those of the other, but for the layout of the bodies of `try`. -/
def Module.IsRelaid (first second : Module) : Prop :=
  List.Forall₂ Node.IsRelaid first.body second.body

instance (first second : Module) : Decidable (first.IsRelaid second) :=
  decidable_of_iff (first.body.length = second.body.length ∧
      ∀ pair ∈ first.body.zip second.body, pair.1.IsRelaid pair.2)
    (by simp [Module.IsRelaid, List.forall₂_iff_zip])

/-- Where a place below one of some paths comes to stand, if each path goes where another one is. -/
def relocated (before after : List Address) (path : Address) : Option Address :=
  ((before.zip after).find? fun pair => pair.1.isPrefixOf path).map fun pair =>
    pair.2 ++ path.drop pair.1.length

theorem relocated_eq_some_iff {before after : List Address} {path found : Address} (distinct : before.Nodup)
    {size : Nat} (level : ∀ first ∈ before, first.length = size) :
    relocated before after path = some found ↔ ∃ (k : Nat) (first second rest : Address),
      before[k]? = some first ∧ after[k]? = some second ∧ path = first ++ rest ∧ found = second ++ rest := by
  constructor
  · intro moved
    obtain ⟨⟨first, second⟩, search, rfl⟩ := Option.map_eq_some_iff.1 moved
    obtain ⟨k, here⟩ := List.getElem?_of_mem (List.mem_of_find?_eq_some search)
    obtain ⟨start, ends⟩ := List.getElem?_zip_eq_some.1 here
    have front : first.isPrefixOf path = true := by simpa using List.find?_some search
    obtain ⟨rest, rfl⟩ := List.isPrefixOf_iff_prefix.1 front
    exact ⟨k, first, second, rest, start, ends, rfl, by simp⟩
  · rintro ⟨k, first, second, rest, start, ends, rfl, rfl⟩
    have pair : (first, second) ∈ before.zip after :=
      List.mem_of_getElem? (List.getElem?_zip_eq_some.2 ⟨start, ends⟩)
    cases search : (before.zip after).find? fun pair => pair.1.isPrefixOf (first ++ rest) with
    | none => exact absurd (List.find?_eq_none.1 search _ pair) (by simp)
    | some other =>
      -- Paths of one length that begin a path are the same, and stand at one index.
      obtain ⟨j, here⟩ := List.getElem?_of_mem (List.mem_of_find?_eq_some search)
      obtain ⟨again, last⟩ := List.getElem?_zip_eq_some.1 here
      have front : other.1.isPrefixOf (first ++ rest) = true := by simpa using List.find?_some search
      have size := (level _ (List.mem_of_getElem? again)).trans (level _ (List.mem_of_getElem? start)).symm
      have same : other.1 = first :=
        List.IsPrefix.eq_of_length (List.prefix_of_prefix_length_le (List.isPrefixOf_iff_prefix.1 front) (List.prefix_append _ _) size.le) size
      have index : j = k :=
        (List.getElem?_inj (List.getElem?_eq_some_iff.1 again).1 distinct).1
          ((again.trans (congrArg some same)).trans start.symm)
      subst index
      have opposite : other.2 = second := Option.some.inj (last.symm.trans ends)
      simp [relocated, search, same, opposite]

namespace Module

/-- Where the parts of a module stand in one that is laid out otherwise. Places between the small statements
of a body are of no account. -/
def relocate (first second : Module) : Address → Address
  | (i + 1) :: 2 :: j :: rest =>
    match (first.body[i]?).bind Node.tryBody?, (second.body[i]?).bind Node.tryBody? with
    | some body, some other =>
      (i + 1) :: 2 :: (relocated body.bodyPaths other.bodyPaths (j :: rest)).getD []
    | _, _ => (i + 1) :: 2 :: j :: rest
  | address => address

end Module

theorem forall₂_of_getElem? {A B : Type} {R : A → B → Prop} {first : List A} {second : List B}
    (length : first.length = second.length)
    (each : ∀ (i : Nat) a b, first[i]? = some a → second[i]? = some b → R a b) : List.Forall₂ R first second :=
  List.forall₂_iff_get.2 ⟨length, fun i here there =>
    each i _ _ (List.getElem?_eq_getElem here) (List.getElem?_eq_getElem there)⟩

namespace Node

theorem importFroms_of_line {statement : Node} (is : statement.isA .line = true) (address : Address) :
    importFroms (address, statement) = (statement.childrenAt address).filter fun located => located.2.isImportFrom := by
  obtain ⟨parens, parts, rfl⟩ := exists_branch is
  simp [importFroms, guardedLines, is]

theorem filter_isImportFrom_solids (address : Address) (node : Node) :
    (node.solids address).filter (fun located => located.2.isImportFrom) =
      (node.childrenAt address).filter fun located => located.2.isImportFrom := by
  rw [solids, List.filter_filter]
  refine List.filter_congr fun located _ => ?_
  cases imports : located.2.isImportFrom with
  | false => rfl
  | true => simp [isA_of_isA imports (by decide : Kind.importFrom ≠ .glue)]

theorem importFroms_of_block {parens : Parens} {above word body : Node} {rest : List Node}
    (block : body.isA .block = true) (address : Address) :
    importFroms (address, .branch .tryBlock parens (above :: word :: body :: rest)) =
      (body.bodySmalls (address ++ [2])).filter fun located => located.2.isImportFrom := by
  simp only [importFroms, guardedLines, if_pos block, bodySmalls, List.filter_flatMap]
  refine List.flatMap_congr fun located _ => ?_
  obtain ⟨place, line⟩ := located
  dsimp only
  split
  next => exact (filter_isImportFrom_solids place line).symm
  next => rfl

theorem importFroms_of_tryBody? {index : Nat} {statement body : Node} (leads : statement.isLeading index = true)
    (found : statement.tryBody? = some body) (address : Address) : importFroms (address, statement) =
      (body.bodySmalls (address ++ [2])).filter fun located => located.2.isImportFrom := by
  have seen := ((isLeading_iff index statement).1 leads).2
  have smalls := smalls_of_tryBody? found
  have guards : statement.guardsImports = true := by
    have opens := ((isLeading_iff index statement).1 leads).1
    simpa [Node.opens, isDocstring, isStringLine, isImportLine, smalls] using opens
  rw [isPassedOver, guards, found, Option.any_some, Bool.true_and, Bool.or_eq_false_iff] at seen
  obtain ⟨kind, parens, above, word, rest, rfl, is, simple⟩ := exists_of_tryBody? found
  have inner := (isA_of_isSimpleBody simple).resolve_right (by simp [seen.2])
  rcases is with rfl | rfl
  · exact importFroms_of_block inner address
  · exact absurd seen.1 (by simp [isA])

theorem importFroms_of_no_tryBody {index : Nat} {statement : Node} (leads : statement.isLeading index = true)
    (none : statement.tryBody? = none) (address : Address) : importFroms (address, statement) =
      (statement.childrenAt address).filter fun located => located.2.isImportFrom := by
  refine importFroms_of_line ?_ address
  cases line : statement.isA .line with
  | true => rfl
  | false =>
    have opens := ((isLeading_iff index statement).1 leads).1
    simp [Node.opens, isDocstring, isStringLine, isImportLine, smalls_of_not_isA line, guardsImports, none] at opens

end Node

namespace Module

theorem mem_leadingImports {module : Module} {address : Address} :
    address ∈ module.leadingImports.map (·.1) ↔ ∃ i statement, i < module.leadingEnd ∧
      module.body[i]? = some statement ∧ address ∈ (Node.importFroms ([i + 1], statement)).map (·.1) := by
  simp only [leadingImports, List.map_flatMap, List.mem_flatMap, statementsAt, take_childrenFrom,
    Node.mem_childrenFrom]
  constructor
  · rintro ⟨⟨place, statement⟩, ⟨i, rfl, here⟩, mem⟩
    simp only [List.nil_append] at here mem
    rw [Nat.add_comm] at mem
    have bound := (List.getElem?_eq_some_iff.1 here).1
    rw [List.length_take] at bound
    rw [List.getElem?_take_of_lt (by omega)] at here
    exact ⟨i, statement, by omega, here, mem⟩
  · rintro ⟨i, statement, before, here, mem⟩
    refine ⟨([i + 1], statement), ⟨i, by simp [Nat.add_comm], ?_⟩, mem⟩
    rw [List.getElem?_take_of_lt before]
    exact here

section

variable {first second : Module} (relaid : first.IsRelaid second)

include relaid

theorem IsRelaid.getElem? {i : Nat} {statement : Node} (here : first.body[i]? = some statement) :
    ∃ other, second.body[i]? = some other ∧ statement.IsRelaid other := by
  obtain ⟨bound, rfl⟩ := List.getElem?_eq_some_iff.1 here
  have length := relaid.length_eq
  exact ⟨_, List.getElem?_eq_getElem (by omega), List.forall₂_iff_get.1 relaid |>.2 i bound (by omega)⟩

theorem IsRelaid.getElem?' {i : Nat} {statement : Node} (here : second.body[i]? = some statement) :
    ∃ other, first.body[i]? = some other ∧ other.IsRelaid statement := by
  obtain ⟨bound, rfl⟩ := List.getElem?_eq_some_iff.1 here
  have length := relaid.length_eq
  exact ⟨_, List.getElem?_eq_getElem (by omega), List.forall₂_iff_get.1 relaid |>.2 i (by omega) bound⟩

end

theorem relocate_of_tryBody? {first second : Module} {i : Nat} {body other : Node}
    (found : (first.body[i]?).bind Node.tryBody? = some body)
    (again : (second.body[i]?).bind Node.tryBody? = some other) {path : Address} (some : path ≠ []) :
    first.relocate second ((i + 1) :: 2 :: path) =
      (i + 1) :: 2 :: (relocated body.bodyPaths other.bodyPaths path).getD [] := by
  obtain ⟨j, rest, rfl⟩ := List.exists_cons_of_ne_nil some
  simp only [relocate, found, again]

/-- Outside the bodies of `try` statements everything stays where it is. -/
theorem relocate_eq_pair_iff {first second : Module} {i k : Nat}
    (none : (first.body[i]?).bind Node.tryBody? = none) (address : Address) :
    first.relocate second address = [i + 1, k] ↔ address = [i + 1, k] := by
  unfold relocate
  split
  next j place rest =>
    split
    next body other found again =>
      constructor
      · intro same
        simp only [List.cons.injEq, Nat.add_right_cancel_iff] at same
        rw [same.1, none] at found
        exact absurd found (by simp)
      · exact fun same => absurd (congrArg List.length same) (by simp)
    next => rfl
  next => rfl

theorem mem_importFroms_of_body {i : Nat} {statement body : Node} {address : Address}
    (imports : Node.importFroms ([i + 1], statement) =
      (body.bodySmalls ([i + 1] ++ [2])).filter fun located => located.2.isImportFrom) :
    address ∈ (Node.importFroms ([i + 1], statement)).map (·.1) ↔ ∃ (k : Nat) (path : Address) (node : Node),
      (body.bodySmalls [])[k]? = some (path, node) ∧ node.isImportFrom = true ∧ address = (i + 1) :: 2 :: path := by
  rw [imports, Node.bodySmalls_eq]
  simp only [List.mem_map, List.mem_filter]
  constructor
  · rintro ⟨-, ⟨⟨⟨path, node⟩, mem, rfl⟩, is⟩, rfl⟩
    obtain ⟨k, here⟩ := List.getElem?_of_mem mem
    exact ⟨k, path, node, here, is, rfl⟩
  · rintro ⟨k, path, node, here, is, rfl⟩
    exact ⟨_, ⟨⟨_, List.mem_of_getElem? here, rfl⟩, is⟩, rfl⟩

theorem getElem?_bodyPaths {body : Node} {k : Nat} {path : Address} {node : Node}
    (here : (body.bodySmalls [])[k]? = some (path, node)) : body.bodyPaths[k]? = some path := by
  rw [Node.bodyPaths, List.getElem?_map, here]
  rfl

theorem exists_of_bodyPaths {body : Node} {k : Nat} {path : Address} (here : body.bodyPaths[k]? = some path) :
    ∃ node, (body.bodySmalls [])[k]? = some (path, node) := by
  rw [Node.bodyPaths, List.getElem?_map, Option.map_eq_some_iff] at here
  obtain ⟨⟨place, node⟩, here, rfl⟩ := here
  exact ⟨node, here⟩

theorem relocated_bodyPaths_iff (body other : Node) {path found : Address} :
    relocated body.bodyPaths other.bodyPaths path = some found ↔ ∃ (k : Nat) (first second rest : Address),
      body.bodyPaths[k]? = some first ∧ other.bodyPaths[k]? = some second ∧ path = first ++ rest ∧
        found = second ++ rest :=
  relocated_eq_some_iff body.nodup_bodyPaths fun _ => Node.length_of_mem_bodyPaths

theorem relocate_of_no_tryBody {first second : Module} {i : Nat}
    (none : (first.body[i]?).bind Node.tryBody? = none) (path : Address) :
    first.relocate second ([i + 1] ++ path) = [i + 1] ++ path := by
  unfold relocate
  split
  next j place rest same =>
    obtain ⟨index, rfl⟩ := List.cons.inj same
    obtain rfl : i = j := Nat.succ.inj index
    rw [none]
    rfl
  next => rfl

theorem relocate_of_ne_two (first second : Module) (i : Nat) {k : Nat} (other : k ≠ 2) (path : Address) :
    first.relocate second ([i, k] ++ path) = [i, k] ++ path := by
  unfold relocate
  split
  next same =>
    simp only [List.cons_append, List.nil_append, List.cons.injEq] at same
    exact absurd same.2.1 other
  next => rfl

/-- Only small statements of the one body come to stand where those of the other are. -/
theorem relocate_eq_small_iff {first second : Module} {i k : Nat} {body other : Node}
    (found : (first.body[i]?).bind Node.tryBody? = some body)
    (again : (second.body[i]?).bind Node.tryBody? = some other) {path : Address}
    (here : other.bodyPaths[k]? = some path) (address : Address) :
    first.relocate second address = (i + 1) :: 2 :: path ↔
      ∃ start, body.bodyPaths[k]? = some start ∧ address = (i + 1) :: 2 :: start := by
  have present := Node.ne_nil_of_mem_bodyPaths (List.mem_of_getElem? here)
  constructor
  · intro moved
    obtain ⟨start, rfl, deep⟩ : ∃ start, address = (i + 1) :: 2 :: start ∧ start ≠ [] := by
      unfold relocate at moved
      split at moved
      next j place rest =>
        split at moved <;> simp only [List.cons.injEq, Nat.add_right_cancel_iff] at moved <;>
          exact ⟨place :: rest, by rw [moved.1], by simp⟩
      next => exact ⟨path, moved, present⟩
    rw [relocate_of_tryBody? found again deep, List.cons.injEq, List.cons.injEq] at moved
    cases went : relocated body.bodyPaths other.bodyPaths start with
    | none => exact absurd moved.2.2.symm (by simpa [went] using present)
    | some reached =>
      rw [went, Option.getD_some] at moved
      obtain rfl := moved.2.2
      obtain ⟨j, front, back, rest, fromHere, toThere, rfl, whole⟩ := (relocated_bodyPaths_iff _ _).1 went
      -- The paths of a body are equally long, so that nothing is left behind the one that is taken.
      have lengths := (Node.length_of_mem_bodyPaths (List.mem_of_getElem? toThere)).trans
        (Node.length_of_mem_bodyPaths (List.mem_of_getElem? here)).symm
      obtain rfl : rest = [] := List.length_eq_zero_iff.1 (by rw [whole, List.length_append] at lengths; omega)
      rw [List.append_nil] at whole ⊢
      have index : j = k := (List.getElem?_inj (List.getElem?_eq_some_iff.1 toThere).1
        other.nodup_bodyPaths).1 (toThere.trans (whole ▸ here.symm))
      exact ⟨front, index ▸ fromHere, rfl⟩
  · rintro ⟨start, spot, rfl⟩
    have went : relocated body.bodyPaths other.bodyPaths start = some path :=
      (relocated_bodyPaths_iff _ _).2 ⟨k, start, path, [], spot, here, by simp, by simp⟩
    rw [relocate_of_tryBody? found again (Node.ne_nil_of_mem_bodyPaths (List.mem_of_getElem? spot)), went,
      Option.getD_some]

section

variable {first second : Module} {i : Nat} {statement other : Node} (here : first.body[i]? = some statement)
  (there : second.body[i]? = some other)

include here there

/-- An import of a leading statement comes to stand where an import of the other statement is. -/
theorem mem_importFroms_relocate (alike : statement.IsRelaid other) (leads : statement.isLeading i = true)
    (again : other.isLeading i = true) (address : Address) :
    first.relocate second address ∈ (Node.importFroms ([i + 1], other)).map (·.1) ↔
      address ∈ (Node.importFroms ([i + 1], statement)).map (·.1) := by
  rcases alike.cases with ⟨none, rfl⟩ | ⟨body, opposite, regrouped⟩
  · have still (k : Nat) := @relocate_eq_pair_iff first second i k (by rw [here]; exact none) address
    simp only [Node.importFroms_of_no_tryBody leads none, List.mem_map, List.mem_filter, Node.mem_childrenAt]
    constructor
    · rintro ⟨⟨place, node⟩, ⟨⟨k, rfl, found⟩, is⟩, same⟩
      exact ⟨_, ⟨⟨k, rfl, found⟩, is⟩, ((still k).1 same.symm).symm⟩
    · rintro ⟨⟨place, node⟩, ⟨⟨k, rfl, found⟩, is⟩, same⟩
      exact ⟨_, ⟨⟨k, rfl, found⟩, is⟩, ((still k).2 same.symm).symm⟩
  · have still {k : Nat} {path : Address} (spot : opposite.bodyPaths[k]? = some path) :=
      @relocate_eq_small_iff first second i k body opposite (by rw [here]; exact regrouped.found)
        (by rw [there]; exact regrouped.again) path spot address
    -- The statements of that number are the same, so one is an import where the other is.
    have same (k : Nat) : ((body.bodySmalls [])[k]?).map (·.2) = ((opposite.bodySmalls [])[k]?).map (·.2) := by
      rw [← List.getElem?_map, ← List.getElem?_map, regrouped.smalls]
    rw [mem_importFroms_of_body (Node.importFroms_of_tryBody? leads regrouped.found [i + 1]),
      mem_importFroms_of_body (Node.importFroms_of_tryBody? again regrouped.again [i + 1])]
    constructor
    · rintro ⟨k, path, node, mem, imports, moved⟩
      obtain ⟨start, spot, rfl⟩ := (still (getElem?_bodyPaths mem)).1 moved
      obtain ⟨own, spot⟩ := exists_of_bodyPaths spot
      obtain rfl : own = node := by simpa [spot, mem] using same k
      exact ⟨k, start, own, spot, imports, rfl⟩
    · rintro ⟨k, start, node, mem, imports, rfl⟩
      obtain ⟨path, spot⟩ : ∃ path, (opposite.bodySmalls [])[k]? = some (path, node) := by
        simpa [mem, eq_comm] using same k
      exact ⟨k, path, node, spot, imports, (still (getElem?_bodyPaths spot)).2 ⟨start, getElem?_bodyPaths mem, rfl⟩⟩

omit here there in
theorem imports_relaid (alike : statement.IsRelaid other) (leads : statement.isLeading i = true)
    (again : other.isLeading i = true) (address : Address) :
    (Node.importFroms (address, other)).map (·.2) = (Node.importFroms (address, statement)).map (·.2) := by
  rcases alike.cases with ⟨-, rfl⟩ | ⟨body, opposite, regrouped⟩
  · rfl
  · have kept (body : Node) : ((body.bodySmalls (address ++ [2])).filter fun located => located.2.isImportFrom).map
        (·.2) = ((body.bodySmalls []).map (·.2)).filter Node.isImportFrom := by
      rw [Node.bodySmalls_eq (address ++ [2]), List.filter_map, List.map_map, List.filter_map]
      rfl
    rw [Node.importFroms_of_tryBody? leads regrouped.found, Node.importFroms_of_tryBody? again regrouped.again,
      kept, kept, regrouped.smalls]

end

theorem getElem?_statementsAt (module : Module) (i : Nat) :
    module.statementsAt[i]? = (module.body[i]?).map fun statement => ([i + 1], statement) := by
  suffices each : ∀ index (nodes : List Node), (Node.childrenFrom [] index nodes)[i]? =
      nodes[i]?.map fun node => ([i + index], node) from each 1 module.body
  intro index nodes
  induction nodes generalizing index i with
  | nil => rfl
  | cons node rest ih =>
    cases i with
    | zero => simp [Node.childrenFrom]
    | succ i => simp [Node.childrenFrom, ih, Nat.add_assoc, Nat.add_comm 1]

section

variable {first second : Module} (relaid : first.IsRelaid second)

include relaid

/-- What opens a module opens it in every layout. -/
theorem IsRelaid.opensFor_iff (count : Nat) : second.OpensFor count ↔ first.OpensFor count := by
  have length := relaid.length_eq
  constructor
  · rintro ⟨bound, opens⟩
    refine ⟨by omega, fun i statement before here => ?_⟩
    obtain ⟨other, there, alike⟩ := relaid.getElem? here
    exact (alike.opens i).symm.trans (opens i other before there)
  · rintro ⟨bound, opens⟩
    refine ⟨by omega, fun i statement before here => ?_⟩
    obtain ⟨other, there, alike⟩ := relaid.getElem?' here
    exact (alike.opens i).trans (opens i other before there)

variable (ends : second.leadingEnd = first.leadingEnd)

include ends

/-- The leading imports of the one module come to stand where those of the other are. -/
theorem IsRelaid.contains_relocate (address : Address) :
    (second.leadingImports.map (·.1)).contains (first.relocate second address) =
      (first.leadingImports.map (·.1)).contains address := by
  rw [Bool.eq_iff_iff, List.contains_iff_mem, List.contains_iff_mem, mem_leadingImports, mem_leadingImports, ends]
  constructor
  · rintro ⟨i, other, before, there, mem⟩
    obtain ⟨statement, here, alike⟩ := relaid.getElem?' there
    exact ⟨i, statement, before, here, (mem_importFroms_relocate here there alike (leads_of_lt before here)
      (leads_of_lt (ends.symm ▸ before) there) address).1 mem⟩
  · rintro ⟨i, statement, before, here, mem⟩
    obtain ⟨other, there, alike⟩ := relaid.getElem? here
    exact ⟨i, other, before, there, (mem_importFroms_relocate here there alike (leads_of_lt before here)
      (leads_of_lt (ends.symm ▸ before) there) address).2 mem⟩

theorem IsRelaid.candidates_eq : Registry.candidates second = Registry.candidates first := by
  have each : (second.statementsAt.take second.leadingEnd).map (fun located => (Node.importFroms located).map (·.2)) =
      (first.statementsAt.take first.leadingEnd).map fun located => (Node.importFroms located).map (·.2) := by
    refine List.ext_getElem? fun i => ?_
    rw [List.getElem?_map, List.getElem?_map, ends]
    by_cases before : i < first.leadingEnd
    · rw [List.getElem?_take_of_lt before, List.getElem?_take_of_lt before, getElem?_statementsAt,
        getElem?_statementsAt]
      cases here : first.body[i]? with
      | none =>
        have none : second.body[i]? = none := by
          rw [List.getElem?_eq_none_iff] at here ⊢
          have := relaid.length_eq
          omega
        rw [none]
      | some statement =>
        obtain ⟨other, there, alike⟩ := relaid.getElem? here
        rw [there]
        exact congrArg some (imports_relaid alike (leads_of_lt before here)
          (leads_of_lt (ends.symm ▸ before) there) [i + 1])
    · rw [List.getElem?_take_eq_none (by omega), List.getElem?_take_eq_none (by omega)]
  -- Candidates do not depend on where the imports stand, so that their addresses can be dropped.
  have nodes (module : Module) : module.leadingImports.map (·.2) =
      ((module.statementsAt.take module.leadingEnd).map fun located => (Node.importFroms located).map (·.2)).flatten := by
    rw [leadingImports, List.map_flatMap, List.flatMap]
  have exports (module : Module) :
      Registry.candidates module = (module.leadingImports.map (·.2)).flatMap Node.exports := by
    rw [Registry.candidates, List.flatMap_map]
  rw [exports, exports, nodes, nodes, each]

end

end Module

end Graft
