import Graft.Proofs.Tree.Address
import Graft.Tree.Import
import Mathlib.Data.List.Nodup
import Mathlib.Order.Bounds.Basic

set_option autoImplicit false

/-!
Imports that a `try` guards, however its body is laid out: on lines of a block, or behind the colon. The
leading section passes over those behind a colon, and over those with handlers of groups.
-/
namespace Graft

namespace Node

/-- The parts that are no glue. -/
def solids (address : Address) (node : Node) : List Located :=
  (node.childrenAt address).filter fun located => !located.2.isA .glue

/-- The small statements of a body, on the lines of a block or on the line of the colon. -/
def bodySmalls (address : Address) (body : Node) : List Located :=
  if body.isA .block then
    (body.childrenAt address).flatMap fun (place, line) => if line.isA .line then line.solids place else []
  else if body.isA .suite then body.solids address
  else []

/-- A body of small statements alone. -/
def isSimpleBody (body : Node) : Bool :=
  !(body.bodySmalls []).isEmpty && body.blockStatements.all fun line => !line.smalls.isEmpty

/-- The body of a `try`, if it is one of small statements. -/
def tryBody? : Node → Option Node
  | .branch kind _ (_ :: _ :: body :: _) =>
    if (kind = .tryBlock || kind = .tryGroup) && body.isSimpleBody then some body else none
  | _ => none

/-- A `try` that guards nothing but imports, whatever the layout of its body. -/
def guardsImports (statement : Node) : Bool :=
  statement.tryBody?.any fun body => (body.bodySmalls []).all fun located => located.2.isImport

/-- What the leading section of a module is to consist of. -/
def opens (index : Nat) (statement : Node) : Bool :=
  statement.isDocstring index || statement.isImportLine || statement.guardsImports

/-- A `try` that guards nothing but imports, and is not seen as one: its body stands behind the colon, or its
handlers take groups. -/
def isPassedOver (statement : Node) : Bool :=
  statement.guardsImports && (statement.isA .tryGroup || statement.tryBody?.any (·.isA .suite))

theorem map_snd_solids (address : Address) (node : Node) :
    (node.solids address).map (·.2) = node.children.filter fun part => !part.isA .glue := by
  rw [← map_snd_childrenFrom address 0 node.children, List.filter_map]
  rfl

theorem smalls_of_isA {line : Node} (is : line.isA .line = true) :
    line.smalls = line.children.filter fun part => !part.isA .glue := by
  obtain ⟨parens, parts, rfl⟩ := exists_branch is
  rfl

theorem smalls_of_not_isA {node : Node} (other : node.isA .line = false) : node.smalls = [] := by
  unfold smalls
  split
  next => exact absurd other (by simp [isA])
  next => rfl

theorem blockStatements_of_isA {body : Node} (is : body.isA .block = true) :
    body.blockStatements = body.children.filter fun part => !part.isA .glue := by
  obtain ⟨parens, parts, rfl⟩ := exists_branch is
  rfl

theorem blockStatements_of_not_isA {body : Node} (other : body.isA .block = false) : body.blockStatements = [] := by
  unfold blockStatements
  split
  next => exact absurd other (by simp [isA])
  next => rfl

theorem isA_of_isA {kind other : Kind} {node : Node} (is : node.isA kind = true) (differ : kind ≠ other) :
    node.isA other = false := by
  obtain ⟨parens, parts, rfl⟩ := exists_branch is
  simpa [isA] using differ

theorem map_snd_bodySmalls_block {body : Node} (is : body.isA .block = true) (address : Address) :
    (body.bodySmalls address).map (·.2) = body.blockStatements.flatMap smalls := by
  have inner (located : Located) : (if located.2.isA .line then located.2.solids located.1 else []).map (·.2) =
      if !located.2.isA .glue then located.2.smalls else [] := by
    cases line : located.2.isA .line with
    | true => simp [map_snd_solids, smalls_of_isA line, isA_of_isA line (by decide : Kind.line ≠ .glue)]
    | false => simp [smalls_of_not_isA line]
  rw [bodySmalls, if_pos is, List.map_flatMap, blockStatements_of_isA is,
    ← map_snd_childrenFrom address 0 body.children, List.filter_map, List.flatMap_map, childrenAt]
  simp only [inner]
  induction childrenFrom address 0 body.children with
  | nil => rfl
  | cons located rest ih =>
    rw [List.flatMap_cons, ih, List.filter_cons]
    cases glue : located.2.isA .glue <;> simp [glue]

theorem all_isImportLine (lines : List Node) : lines.all isImportLine =
    (lines.all (fun line => !line.smalls.isEmpty) && (lines.flatMap smalls).all isImport) := by
  induction lines with
  | nil => rfl
  | cons line rest ih =>
    rw [List.all_cons, ih, List.all_cons, List.flatMap_cons, List.all_append, isImportLine]
    ac_rfl

theorem isEmpty_flatMap_smalls {lines : List Node} (full : lines.all (fun line => !line.smalls.isEmpty) = true) :
    (lines.flatMap smalls).isEmpty = lines.isEmpty := by
  cases lines with
  | nil => rfl
  | cons line rest =>
    rw [List.all_cons, Bool.and_eq_true, Bool.not_eq_true', List.isEmpty_eq_false_iff] at full
    rw [List.isEmpty_cons, List.isEmpty_eq_false_iff, List.flatMap_cons]
    exact List.append_ne_nil_of_left_ne_nil full.1 _

/-- The body of a block guards imports if each of its lines is one of imports. -/
theorem guarded_of_block {body : Node} (is : body.isA .block = true) :
    (body.isSimpleBody && (body.bodySmalls []).all fun located => located.2.isImport) =
      (!body.blockStatements.isEmpty && body.blockStatements.all isImportLine) := by
  have smalls := map_snd_bodySmalls_block is []
  have imports : ((body.bodySmalls []).all fun located => located.2.isImport) =
      (body.blockStatements.flatMap Node.smalls).all isImport := by
    rw [← smalls, List.all_map]
    rfl
  rw [isSimpleBody, ← List.isEmpty_map, smalls, imports, all_isImportLine]
  cases full : body.blockStatements.all (fun line => !line.smalls.isEmpty) with
  | true => rw [isEmpty_flatMap_smalls full, Bool.and_true, Bool.true_and]
  | false => simp

theorem tryBody?_branch (kind : Kind) (parens : Parens) (above word body : Node) (rest : List Node) :
    (branch kind parens (above :: word :: body :: rest)).tryBody? =
      if (kind = .tryBlock || kind = .tryGroup) && body.isSimpleBody then some body else none :=
  rfl

theorem exists_of_tryBody? {statement body : Node} (found : statement.tryBody? = some body) :
    ∃ kind parens above word rest, statement = .branch kind parens (above :: word :: body :: rest) ∧
      (kind = .tryBlock ∨ kind = .tryGroup) ∧ body.isSimpleBody = true := by
  unfold tryBody? at found
  split at found
  next kind parens above word inner rest =>
    split at found
    next is =>
      obtain rfl := Option.some.inj found
      simp only [Bool.and_eq_true, Bool.or_eq_true, decide_eq_true_eq] at is
      exact ⟨kind, parens, above, word, rest, rfl, is⟩
    next => exact absurd found (by simp)
  next => exact absurd found (by simp)

theorem isA_of_isSimpleBody {body : Node} (simple : body.isSimpleBody = true) :
    body.isA .block = true ∨ body.isA .suite = true := by
  cases block : body.isA .block with
  | true => exact .inl rfl
  | false =>
    cases suite : body.isA .suite with
    | true => exact .inr rfl
    | false => simp [isSimpleBody, bodySmalls, block, suite] at simple

/-- What is taken for a block of imports guards nothing else. -/
theorem isImportBlock_iff (statement : Node) :
    statement.isImportBlock = true ↔ statement.guardsImports = true ∧ statement.isPassedOver = false := by
  constructor
  · intro block
    unfold isImportBlock at block
    split at block
    next parens above word body rest =>
      have is : body.isA .block = true := by
        cases is : body.isA .block with
        | true => rfl
        | false => simp [blockStatements_of_not_isA is] at block
      rw [← guarded_of_block is, Bool.and_eq_true] at block
      have found : (branch .tryBlock parens (above :: word :: body :: rest)).tryBody? = some body := by
        simp [tryBody?_branch, block.1]
      refine ⟨by rw [guardsImports, found]; exact block.2, ?_⟩
      have other : (branch .tryBlock parens (above :: word :: body :: rest)).isA .tryGroup = false := rfl
      rw [isPassedOver, found, other, Option.any_some, isA_of_isA is (by decide)]
      simp
    next => exact absurd block (by simp)
  · rintro ⟨guards, seen⟩
    obtain ⟨body, found, imports⟩ := (Option.any_eq_true _ _).1 guards
    rw [isPassedOver, guards, found] at seen
    obtain ⟨kind, parens, above, word, rest, rfl, is, simple⟩ := exists_of_tryBody? found
    simp only [Bool.true_and, Option.any_some, Bool.or_eq_false_iff] at seen
    have block := (isA_of_isSimpleBody simple).resolve_right (by simp [seen.2])
    rcases is with rfl | rfl
    · rw [isImportBlock, ← guarded_of_block block, simple, Bool.true_and]
      exact imports
    · exact absurd seen.1 (by simp [isA])

theorem smalls_of_tryBody? {statement body : Node} (found : statement.tryBody? = some body) :
    statement.smalls = [] := by
  obtain ⟨kind, parens, above, word, rest, rfl, is, -⟩ := exists_of_tryBody? found
  refine smalls_of_not_isA ?_
  rcases is with rfl | rfl <;> rfl

/-- A statement leads if it is to open a module, and is not passed over. -/
theorem isLeading_iff (index : Nat) (statement : Node) :
    statement.isLeading index = true ↔ statement.opens index = true ∧ statement.isPassedOver = false := by
  cases found : statement.tryBody? with
  | none =>
    have guards : statement.guardsImports = false := by rw [guardsImports, found]; rfl
    have block : statement.isImportBlock = false :=
      Bool.eq_false_iff.2 fun block => by simp [((isImportBlock_iff _).1 block).1] at guards
    simp [isLeading, opens, isPassedOver, guards, block]
  | some body =>
    have smalls := smalls_of_tryBody? found
    have docstring : statement.isDocstring index = false := by simp [isDocstring, isStringLine, smalls]
    have line : statement.isImportLine = false := by simp [isImportLine, smalls]
    rw [isLeading, opens, docstring, line]
    exact isImportBlock_iff statement

theorem childrenFrom_eq (address : Address) (index : Nat) (nodes : List Node) :
    childrenFrom address index nodes =
      (childrenFrom [] index nodes).map fun located => (address ++ located.1, located.2) := by
  induction nodes generalizing index with
  | nil => rfl
  | cons node rest ih => rw [childrenFrom, childrenFrom, List.map_cons, ih]; rfl

theorem nodup_childrenFrom (address : Address) (index : Nat) (nodes : List Node) :
    ((childrenFrom address index nodes).map (·.1)).Nodup := by
  induction nodes generalizing index with
  | nil => exact List.nodup_nil
  | cons node rest ih =>
    rw [childrenFrom, List.map_cons, List.nodup_cons]
    refine ⟨fun mem => ?_, ih _⟩
    obtain ⟨located, later, same⟩ := List.mem_map.1 mem
    obtain ⟨j, place, -⟩ := mem_childrenFrom.1 later
    rw [place, List.append_cancel_left_eq, List.cons.injEq] at same
    omega

theorem solids_eq (address : Address) (node : Node) :
    node.solids address = (node.solids []).map fun located => (address ++ located.1, located.2) := by
  rw [solids, solids, childrenAt, childrenAt, childrenFrom_eq address, List.filter_map]
  rfl

theorem bodySmalls_eq (address : Address) (body : Node) :
    body.bodySmalls address = (body.bodySmalls []).map fun located => (address ++ located.1, located.2) := by
  unfold bodySmalls
  split
  next =>
    rw [childrenAt, childrenAt, childrenFrom_eq address, List.flatMap_map, List.map_flatMap]
    refine List.flatMap_congr fun located _ => ?_
    obtain ⟨place, line⟩ := located
    dsimp only
    split
    next =>
      rw [solids_eq (address ++ place), solids_eq place, List.map_map]
      simp [Function.comp_def]
    next => rfl
  next =>
    split
    next => exact solids_eq address body
    next => rfl

/-- The places of the small statements of a body. -/
def bodyPaths (body : Node) : List Address := (body.bodySmalls []).map (·.1)

theorem nodup_solids (address : Address) (node : Node) : ((node.solids address).map (·.1)).Nodup :=
  (nodup_childrenFrom address 0 node.children).sublist (List.filter_sublist.map _)

theorem exists_of_mem_solids {address : Address} {node : Node} {located : Located}
    (mem : located ∈ node.solids address) : ∃ i, located.1 = address ++ [i] ∧ node.children[i]? = some located.2 ∧
      located.2.isA .glue = false := by
  obtain ⟨among, solid⟩ := List.mem_filter.1 mem
  obtain ⟨i, place, here⟩ := mem_childrenAt.1 among
  exact ⟨i, place, here, by simpa using solid⟩

theorem nodup_bodyPaths (body : Node) : body.bodyPaths.Nodup := by
  unfold bodyPaths bodySmalls
  split
  next =>
    rw [List.map_flatMap, List.nodup_flatMap]
    constructor
    · rintro ⟨place, line⟩ -
      simp only
      split
      next => exact nodup_solids _ _
      next => exact List.nodup_nil
    · refine List.Pairwise.imp_of_mem ?_ (List.pairwise_map.1 (nodup_childrenFrom [] 0 body.children))
      intro first second mem later differ path among again
      simp only [List.mem_map] at among again
      obtain ⟨located, among, rfl⟩ := among
      obtain ⟨other, again, same⟩ := again
      -- Statements of one line share the place of the line.
      split at again
      next =>
        split at among
        next =>
          obtain ⟨i, place, -⟩ := exists_of_mem_solids among
          obtain ⟨j, elsewhere, -⟩ := exists_of_mem_solids again
          rw [place, elsewhere] at same
          exact differ (List.append_inj_left' same rfl).symm
        next => simp at among
      next => simp at again
  next =>
    split
    next => exact nodup_solids _ _
    next => exact List.nodup_nil

theorem length_of_mem_bodyPaths {body : Node} {path : Address} (mem : path ∈ body.bodyPaths) :
    path.length = if body.isA .block then 2 else 1 := by
  obtain ⟨located, among, rfl⟩ := List.mem_map.1 mem
  unfold bodySmalls at among
  split at among
  next block =>
    obtain ⟨⟨place, line⟩, inside, among⟩ := List.mem_flatMap.1 among
    simp only at among
    split at among
    next =>
      obtain ⟨i, below, -⟩ := mem_childrenAt.1 inside
      obtain ⟨j, deeper, -⟩ := exists_of_mem_solids among
      rw [if_pos block, deeper, show place = [] ++ [i] from below]
      rfl
    next => simp at among
  next other =>
    split at among
    next =>
      obtain ⟨i, place, -⟩ := exists_of_mem_solids among
      rw [if_neg other, place]
      rfl
    next => simp at among

theorem part?_of_mem_bodySmalls {body : Node} {located : Located} (mem : located ∈ body.bodySmalls []) :
    body.part? located.1 = some located.2 := by
  unfold bodySmalls at mem
  split at mem
  next =>
    obtain ⟨⟨place, line⟩, inside, mem⟩ := List.mem_flatMap.1 mem
    simp only at mem
    split at mem
    next =>
      obtain ⟨i, below, here⟩ := mem_childrenAt.1 inside
      obtain ⟨j, deeper, there, -⟩ := exists_of_mem_solids mem
      obtain rfl : place = [i] := below
      rw [deeper, part?_append, part?_cons, here, Option.bind_some, part?_nil, Option.bind_some, part?_cons, there]
      rfl
    next => exact absurd mem (by simp)
  next =>
    split at mem
    next =>
      obtain ⟨i, place, here, -⟩ := exists_of_mem_solids mem
      rw [place, List.nil_append, part?_cons, here]
      rfl
    next => exact absurd mem (by simp)

theorem ne_nil_of_mem_bodyPaths {body : Node} {path : Address} (mem : path ∈ body.bodyPaths) : path ≠ [] := by
  have length := length_of_mem_bodyPaths mem
  rintro rfl
  split at length <;> exact absurd length (by simp)

end Node

theorem leads_of_lt_leadingFrom {index i : Nat} {statements : List Node} {statement : Node}
    (before : i < leadingFrom index statements) (here : statements[i]? = some statement) :
    statement.isLeading (index + i) = true := by
  induction statements generalizing index i with
  | nil => simp at here
  | cons first rest ih =>
    rw [leadingFrom] at before
    split at before
    next leads =>
      cases i with
      | zero => exact Option.some.inj here ▸ leads
      | succ i =>
        have later := ih (show i < leadingFrom (index + 1) rest by omega) here
        rwa [Nat.add_assoc, Nat.add_comm 1] at later
    next => exact absurd before (by omega)

theorem not_leads_at_leadingFrom {index : Nat} {statements : List Node} {statement : Node}
    (here : statements[leadingFrom index statements]? = some statement) :
    statement.isLeading (index + leadingFrom index statements) = false := by
  induction statements generalizing index with
  | nil => simp at here
  | cons first rest ih =>
    rw [leadingFrom] at here ⊢
    split at here
    next leads =>
      rw [if_pos leads, Nat.add_comm _ 1, ← Nat.add_assoc]
      exact ih here
    next stops =>
      obtain rfl := Option.some.inj here
      simp [stops]

namespace Module

/-- The first statements of a module open it: each is a docstring at the beginning, a line of imports, or a
`try` around imports. -/
def OpensFor (module : Module) (count : Nat) : Prop :=
  count ≤ module.body.length ∧
    ∀ i statement, i < count → module.body[i]? = some statement → statement.opens i = true

/-- Whether the leading section ends at a `try` that is passed over. -/
def isCutShort (module : Module) : Bool := (module.body[module.leadingEnd]?).any Node.isPassedOver

variable {module : Module}

theorem leads_of_lt {i : Nat} {statement : Node} (before : i < module.leadingEnd)
    (here : module.body[i]? = some statement) : statement.isLeading i = true := by
  simpa using leads_of_lt_leadingFrom before here

theorem opensFor_leadingEnd (bound : module.leadingEnd ≤ module.body.length) :
    module.OpensFor module.leadingEnd :=
  ⟨bound, fun _ _ before here => ((Node.isLeading_iff _ _).1 (leads_of_lt before here)).1⟩

/-- The leading section is the longest opening, unless it is cut short. -/
theorem isGreatest_leadingEnd_iff (bound : module.leadingEnd ≤ module.body.length) :
    IsGreatest {count | module.OpensFor count} module.leadingEnd ↔ module.isCutShort = false := by
  rw [isCutShort, Option.any_eq_false]
  constructor
  · rintro ⟨-, greatest⟩ statement here
    refine Bool.eq_false_iff.2 fun passed => ?_
    -- The statement opens the module too, so that the opening goes on.
    have longer : module.OpensFor (module.leadingEnd + 1) := by
      refine ⟨(List.getElem?_eq_some_iff.1 here).1, fun i other before found => ?_⟩
      rcases Nat.lt_succ_iff_lt_or_eq.1 before with earlier | rfl
      · exact (opensFor_leadingEnd bound).2 i other earlier found
      · obtain rfl := Option.some.inj (here.symm.trans found)
        have guards := (Bool.and_eq_true _ _ ▸ passed :).1
        simp [Node.opens, guards]
    exact absurd (greatest longer) (by omega)
  · intro seen
    refine ⟨opensFor_leadingEnd bound, fun count opens => ?_⟩
    by_contra more
    have some : module.leadingEnd < module.body.length := by have := opens.1; omega
    have here := List.getElem?_eq_getElem some
    have leads := (Node.isLeading_iff _ _).2 ⟨opens.2 _ _ (by omega) here, seen _ here⟩
    have stops := @not_leads_at_leadingFrom 0 _ _ here
    rw [Nat.zero_add] at stops
    exact absurd (stops.symm.trans leads) (by simp)

end Module

end Graft
