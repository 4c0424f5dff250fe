import Graft.Proofs.Grafting.Leading
import Graft.Proofs.Grafting.Report
import Graft.Proofs.Grafting.Survey

set_option autoImplicit false

/-!
How a grafted module opens: with its docstring and its future imports, if the new imports can be
written behind them. That place is found line by line, and a line has room for several statements.
-/
namespace Graft

open Node

/-- What statements are gathered in. -/
def Kind.isGathering : Kind → Bool
  | .module | .line | .suite | .block => true
  | _ => false

namespace Node

/-- The statements in a node, in the order of the text. Those inside of others are among them. -/
def statements : Node → List Node
  | .leaf _ => []
  | .name _ _ => []
  | .branch kind parens children =>
    if kind.isStatement then
      (if kind.isGathering then [] else [.branch kind parens children]) ++ statementsAll children
    else []
where
  statementsAll : List Node → List Node
    | [] => []
    | node :: rest => node.statements ++ statementsAll rest

def isFuture (node : Node) : Bool := (node.clause?.map Clause.source) == some "__future__"

/-- What there is to know of a statement that a module opens with. -/
def opening (node : Node) : Bool × Bool := (node.isStringExpression, node.isFuture)

theorem statementsAll_eq (nodes : List Node) :
    statements.statementsAll nodes = nodes.flatMap statements := by
  induction nodes with
  | nil => rfl
  | cons node rest ih => rw [statements.statementsAll, ih, List.flatMap_cons]

theorem statements_of_expression {node : Node} (expression : node.isStatement = false) :
    node.statements = [] := by
  cases node with
  | leaf l => rfl
  | name parens id => rfl
  | branch kind parens children => simpa [statements] using fun statement => absurd statement (by simpa [isStatement] using expression)

theorem statements_of_proper {kind : Kind} (statement : kind.isStatement = true)
    (proper : kind.isGathering = false) (parens : Parens) (children : List Node) :
    (branch kind parens children).statements =
      branch kind parens children :: children.flatMap statements := by
  rw [statements, if_pos statement, proper, statementsAll_eq]
  rfl

theorem exists_statements {node : Node} {kind : Kind} (is : node.isA kind = true)
    (statement : kind.isStatement = true) (proper : kind.isGathering = false) :
    ∃ inner, node.statements = node :: inner := by
  obtain ⟨parens, parts, rfl⟩ := exists_branch is
  exact ⟨_, statements_of_proper statement proper parens parts⟩

theorem isA_of_isStringExpression {node : Node} (string : node.isStringExpression = true) :
    node.isA .expression = true := by
  unfold isStringExpression at string
  split at string
  next => rfl
  next => exact absurd string (by simp)

theorem not_isStringExpression {node : Node} {kind : Kind} (is : node.isA kind = true)
    (other : kind ≠ .expression) : node.isStringExpression = false := by
  obtain ⟨parens, parts, rfl⟩ := exists_branch is
  refine Bool.eq_false_iff.2 fun string => other ?_
  simpa [isA] using isA_of_isStringExpression string

theorem statements_of_gathering {kind : Kind} (gathering : kind.isGathering = true) (parens : Parens)
    (children : List Node) : (branch kind parens children).statements = children.flatMap statements := by
  have statement : kind.isStatement = true := by cases kind <;> first | rfl | exact absurd gathering (by decide)
  rw [statements, if_pos statement, gathering, statementsAll_eq]
  rfl

variable (configs : List (Address × Node))

theorem opening_inject {node : Node} (wellFormed : node.wellFormed = true) (address : Address) :
    (node.inject configs address).opening = node.opening := by
  rw [opening, opening, isStringExpression_inject, isFuture, isFuture,
    clause?_inject configs address node wellFormed]

theorem map_opening_injectFrom {nodes : List Node} (each : ∀ node ∈ nodes, ∀ address,
      (node.inject configs address).statements.map opening = node.statements.map opening)
    (address : Address) (index : Nat) :
    ((inject.injectFrom configs address index nodes).flatMap statements).map opening =
      (nodes.flatMap statements).map opening := by
  induction nodes generalizing index with
  | nil => rfl
  | cons node rest ih =>
    simp only [inject.injectFrom, List.flatMap_cons, List.map_append, each node (by simp)]
    rw [ih fun other mem => each other (by simp [mem])]

theorem map_opening_inject {node : Node} (wellFormed : node.wellFormed = true) (address : Address) :
    (node.inject configs address).statements.map opening = node.statements.map opening := by
  induction node generalizing address with
  | leaf l => rfl
  | name parens id => rfl
  | branch kind parens children ih =>
    have each := ((wellFormed_branch _ _ _).1 wellFormed).2
    -- A call is no statement, and whatever it is given, it stays a call.
    by_cases called : kind = .call
    next =>
      subst called
      obtain ⟨nodes, same⟩ := exists_inject_branch configs address .call parens children
      rw [same]
      rfl
    have parts := map_opening_injectFrom configs (fun child mem => ih child mem (each child mem)) address 0
    have itself := opening_inject configs wellFormed address
    rw [inject_of_not_call configs address called] at itself ⊢
    rw [statements, statements]
    split
    next => split <;> simp [itself, parts, statementsAll_eq]
    next => rfl

theorem statements_of_line {line : Node} (is : line.isA .line = true) :
    line.statements = line.smalls.flatMap statements := by
  obtain ⟨parens, parts, rfl⟩ := exists_branch is
  rw [statements_of_gathering rfl, smalls]
  clear is
  induction parts with
  | nil => rfl
  | cons part rest ih =>
    rw [List.flatMap_cons, ih, List.filter_cons]
    cases glue : part.isA .glue with
    | false => rfl
    | true =>
      obtain ⟨around, nodes, rfl⟩ := exists_branch glue
      rfl

theorem isA_line_of_smalls {node : Node} (some : node.smalls ≠ []) : node.isA .line = true := by
  unfold smalls at some
  split at some
  next => rfl
  next => exact absurd rfl some

theorem exists_statements_of_isStringLine {line : Node} (alone : line.isStringLine = true) :
    ∃ first rest, line.statements = first :: rest := by
  unfold isStringLine at alone
  split at alone
  next small only =>
    have is : line.isA .line = true := isA_line_of_smalls (by simp [only])
    obtain ⟨inner, whole⟩ := exists_statements (isA_of_isStringExpression alone) rfl rfl
    exact ⟨small, inner, by simp [statements_of_line is, only, whole]⟩
  next => exact absurd alone (by simp)

theorem isStatement_of_isA {node : Node} {kind : Kind} (is : node.isA kind = true)
    (expression : kind.isStatement = false) : node.isStatement = false := by
  obtain ⟨parens, nodes, rfl⟩ := exists_branch is
  exact expression

theorem statements_of_isDotted {node : Node} (dotted : node.isDotted = true) : node.statements = [] := by
  unfold isDotted at dotted
  split at dotted
  next => rfl
  next => rfl
  next => exact absurd dotted (by simp)

theorem statements_of_isAbsent {node : Node} (absent : node.isAbsent = true) : node.statements = [] := by
  unfold isAbsent at absent
  split at absent
  next => rfl
  next => exact absurd absent (by simp)

theorem statements_of_importFrom {parens : Parens} {parts : List Node}
    (wellFormed : (branch .importFrom parens parts).wellFormed = true) :
    (branch .importFrom parens parts).statements = [branch .importFrom parens parts] := by
  obtain ⟨word, dots, source, between, aliases, closing, rfl, words, points, path, gap, names, last⟩ :=
    Shape.hasRoles_importFrom (Shape.hasRoles_of_fits ((wellFormed_branch _ _ _).1 wellFormed).1)
  -- None of its parts is a statement.
  have glue {node : Node} (is : node.isA .glue = true) : node.statements = [] :=
    statements_of_expression (isStatement_of_isA is rfl)
  have module : source.statements = [] := path.elim statements_of_isAbsent statements_of_isDotted
  have group : aliases.statements = [] :=
    names.elim statements_of_isAbsent fun is => statements_of_expression (isStatement_of_isA is rfl)
  rw [statements_of_proper rfl rfl]
  simp [glue words, glue points, module, glue gap, group, glue last]

end Node

def Module.statements (module : Module) : List Node := module.body.flatMap Node.statements

def opensWithString (statements : List Node) : Bool := statements.head?.any isStringExpression

/-- Nothing but the docstring and other future imports stands before a future import. -/
def FuturesFirst (statements : List Node) : Prop :=
  (statements.drop (if opensWithString statements then 1 else 0)).Pairwise
    fun earlier later => later.isFuture = true → earlier.isFuture = true

instance (statements : List Node) : Decidable (FuturesFirst statements) :=
  inferInstanceAs (Decidable (List.Pairwise _ _))

theorem opensWithString_congr {first second : List Node} (same : first.map opening = second.map opening) :
    opensWithString first = opensWithString second := by
  have read (statements : List Node) :
      opensWithString statements = (statements.map opening).head?.any (·.1) := by
    rw [opensWithString, List.head?_map, Option.any_map]
    rfl
  rw [read, read, same]

theorem futuresFirst_congr {first second : List Node} (same : first.map opening = second.map opening) :
    FuturesFirst first ↔ FuturesFirst second := by
  have read (statements : List Node) (skipped : Nat) :
      (statements.drop skipped).Pairwise (fun earlier later => later.isFuture = true → earlier.isFuture = true) ↔
        ((statements.map opening).drop skipped).Pairwise (fun earlier later => later.2 = true → earlier.2 = true) := by
    rw [← List.map_drop, List.pairwise_map]
    rfl
  rw [FuturesFirst, FuturesFirst, opensWithString_congr same, read, read, same]

theorem futuresFirst_insert_iff {front lines back : List Node} (some : lines ≠ [])
    (ordinary : ∀ line ∈ lines, line.isFuture = false ∧ line.isStringExpression = false)
    (ordered : FuturesFirst (front ++ back)) :
    FuturesFirst (front ++ (lines ++ back)) ↔ ∀ statement ∈ back, statement.isFuture = false := by
  have inserted (before : List Node) (opens : before.Pairwise
      fun earlier later => later.isFuture = true → earlier.isFuture = true) :
      (before ++ (lines ++ back)).Pairwise
        (fun earlier later => later.isFuture = true → earlier.isFuture = true) ↔
          ∀ statement ∈ back, statement.isFuture = false := by
    constructor
    next =>
      intro pairs statement mem
      -- A future import at the back has a new statement before it, which is none.
      obtain ⟨line, among⟩ := List.exists_mem_of_ne_nil lines some
      have behind := (List.pairwise_append.1 (List.pairwise_append.1 pairs).2.1).2.2 line among statement mem
      exact Bool.eq_false_iff.2 fun future => absurd (behind future) (by simp [ordinary line among])
    next =>
      intro none
      have late : ∀ later ∈ lines ++ back, ∀ earlier : Node,
          later.isFuture = true → earlier.isFuture = true := by
        intro later mem earlier future
        obtain mem | mem := List.mem_append.1 mem
        next => exact absurd future (by simp [ordinary later mem])
        next => exact absurd future (by simp [none later mem])
      refine List.pairwise_append.2 ⟨opens, ?_, fun earlier _ later mem => late later mem earlier⟩
      exact List.pairwise_of_forall_mem_list fun earlier _ later mem => late later mem earlier
  cases front with
  | nil =>
    -- The first of the new statements is no string.
    obtain ⟨line, rest, rfl⟩ := List.exists_cons_of_ne_nil some
    have first : opensWithString ([] ++ (line :: rest ++ back)) = false := (ordinary line (by simp)).2
    rw [FuturesFirst, first]
    exact inserted [] .nil
  | cons first rest =>
    have same (after : List Node) : opensWithString (first :: rest ++ after) = first.isStringExpression := rfl
    have reach : (if first.isStringExpression then 1 else 0) ≤ (first :: rest).length := by
      split <;> simp
    rw [FuturesFirst, same, List.drop_append_of_le_length reach] at ordered ⊢
    exact inserted _ (List.pairwise_append.1 ordered).1

/-- New imports, none of which is a future import. -/
def AreOrdinary (lines : List Node) : Prop :=
  ∀ line ∈ lines, ∃ wanted bound, ImportsAs line wanted bound ∧ wanted.source ≠ "__future__"

theorem ImportsAs.statements {line : Node} {wanted : Export} {bound : String}
    (imports : ImportsAs line wanted bound) : ∃ statement, line.statements = [statement] ∧
      statement.isStringExpression = false ∧ statement.clause? = some (wanted.clause bound) := by
  obtain ⟨wellFormed, parts, ending, rfl, said⟩ := imports
  have inner := ((wellFormed_branch _ _ _).1 wellFormed).2 (Node.plain .importFrom parts) (by simp)
  refine ⟨Node.plain .importFrom parts, ?_, rfl, said⟩
  rw [Node.plain, statements_of_gathering rfl, Node.plain]
  simp [statements_of_importFrom inner, statements_of_expression (show Node.absent.isStatement = false from rfl),
    statements_of_expression (show (Node.glue ending).isStatement = false from rfl)]

namespace AreOrdinary

variable {lines : List Node} (ordinary : AreOrdinary lines)

include ordinary

theorem statements {statement : Node} (mem : statement ∈ lines.flatMap Node.statements) :
    statement.isFuture = false ∧ statement.isStringExpression = false := by
  obtain ⟨line, among, mem⟩ := List.mem_flatMap.1 mem
  obtain ⟨wanted, bound, imports, apart⟩ := ordinary line among
  obtain ⟨only, same, string, said⟩ := imports.statements
  obtain rfl : statement = only := by simpa [same] using mem
  refine ⟨?_, string⟩
  simpa [isFuture, said, Export.clause] using apart

theorem exists_head (some : lines ≠ []) : ∃ statement rest,
    lines.flatMap Node.statements = statement :: rest ∧ statement.isStringExpression = false := by
  obtain ⟨line, rest, rfl⟩ := List.exists_cons_of_ne_nil some
  obtain ⟨wanted, bound, imports, -⟩ := ordinary line (by simp)
  obtain ⟨only, same, string, -⟩ := imports.statements
  exact ⟨only, rest.flatMap Node.statements, by simp [same], string⟩

end AreOrdinary

namespace Module

variable {module : Module} {lines : List Node}

theorem statements_insertLeading (module : Module) (lines : List Node) :
    (module.insertLeading lines).statements =
      (module.body.take module.leadingEnd).flatMap Node.statements ++
        (lines.flatMap Node.statements ++ (module.body.drop module.leadingEnd).flatMap Node.statements) := by
  simp [statements, insertLeading]

theorem statements_split (module : Module) : module.statements =
    (module.body.take module.leadingEnd).flatMap Node.statements ++
      (module.body.drop module.leadingEnd).flatMap Node.statements := by
  rw [statements, ← List.flatMap_append, List.take_append_drop]

theorem isLeading_iff_isStringLine {first : Node} {rest : List Node}
    (opens : opensWithString ((first :: rest).flatMap Node.statements) = true) :
    first.isLeading 0 = true ↔ first.isStringLine = true := by
  have opener {node : Node} {others : List Node}
      (same : (first :: rest).flatMap Node.statements = node :: others) :
      node.isStringExpression = true := by
    rw [same] at opens
    exact opens
  constructor
  next =>
    intro leading
    simp only [isLeading, isDocstring, decide_true, Bool.true_and, Bool.or_eq_true] at leading
    obtain (string | line) | block := leading
    next => exact string
    next =>
      -- The first statement on the line would be an import.
      simp only [isImportLine, Bool.and_eq_true, Bool.not_eq_true', List.isEmpty_eq_false_iff] at line
      obtain ⟨small, others, same⟩ := List.exists_cons_of_ne_nil line.1
      have imports : small.isImport = true := List.all_eq_true.1 line.2 small (by simp [same])
      obtain ⟨kind, is, statement, proper, other⟩ : ∃ kind, small.isA kind = true ∧
          kind.isStatement = true ∧ kind.isGathering = false ∧ kind ≠ .expression := by
        simp only [isImport, isImportFrom, Bool.or_eq_true] at imports
        exact imports.elim (fun is => ⟨_, is, rfl, rfl, by decide⟩) fun is => ⟨_, is, rfl, rfl, by decide⟩
      obtain ⟨inner, whole⟩ := exists_statements is statement proper
      have string : small.isStringExpression = true := opener (by
        rw [List.flatMap_cons, statements_of_line (isA_line_of_smalls line.1), same, List.flatMap_cons,
          whole, List.cons_append, List.cons_append])
      exact absurd string (by simp [not_isStringExpression is other])
    next =>
      -- So would be the block itself.
      have is : first.isA .tryBlock = true := by
        unfold isImportBlock at block
        split at block
        next => rfl
        next => exact absurd block (by simp)
      obtain ⟨inner, whole⟩ := exists_statements is rfl rfl
      have string : first.isStringExpression = true :=
        opener (by rw [List.flatMap_cons, whole, List.cons_append])
      exact absurd string (by simp [not_isStringExpression is (by decide)])
  next =>
    intro string
    simp [isLeading, isDocstring, string]

theorem futuresFirst_insertLeading_iff (some : lines ≠ []) (ordinary : AreOrdinary lines)
    (ordered : FuturesFirst module.statements) :
    FuturesFirst (module.insertLeading lines).statements ↔
      ∀ statement ∈ (module.body.drop module.leadingEnd).flatMap Node.statements,
        statement.isFuture = false := by
  obtain ⟨head, rest, same, -⟩ := ordinary.exists_head some
  rw [statements_split] at ordered
  rw [statements_insertLeading]
  exact futuresFirst_insert_iff (by simp [same]) (fun _ mem => ordinary.statements mem) ordered

theorem head_insertLeading_iff (some : lines ≠ []) (ordinary : AreOrdinary lines)
    (opens : opensWithString module.statements = true) :
    (module.insertLeading lines).statements.head? = module.statements.head? ↔
      module.body.head?.any isStringLine = true := by
  obtain ⟨line, others, same, string⟩ := ordinary.exists_head some
  rw [statements_insertLeading, same]
  cases body : module.body with
  | nil => simp [opensWithString, statements, body] at opens
  | cons first rest =>
    rw [statements, body] at opens
    have leading := isLeading_iff_isStringLine opens
    rw [List.head?_cons, Option.any_some, statements, body, leadingEnd, body, leadingFrom]
    cases alone : first.isStringLine with
    | true =>
      -- The line with the string is in front of the new statements.
      obtain ⟨opener, inner, whole⟩ := exists_statements_of_isStringLine alone
      simp [leading.2 alone, whole]
    | false =>
      have out : first.isLeading 0 = false := by
        rw [Bool.eq_false_iff, Ne, leading, alone]
        simp
      -- The new statements come first, and they are no strings.
      simp only [out, Bool.false_eq_true, if_false, List.take_zero, List.flatMap_nil, List.nil_append,
        List.cons_append, List.head?_cons, iff_false]
      intro front
      rw [opensWithString, ← front] at opens
      simp [string] at opens

/-- What comes of the opening of a module when statements are written into it after an injection: its
future imports stay in front if none is behind the new statements, and its docstring does if it stands
on its line alone. -/
structure KeepsOpening (module injected written : Module) (lines : List Node) : Prop where
  string : opensWithString injected.statements = opensWithString module.statements
  docstring : opensWithString module.statements = true →
    (written.statements.head? = injected.statements.head? ↔
      lines = [] ∨ module.body.head?.any isStringLine = true)
  futures : FuturesFirst module.statements →
    (FuturesFirst written.statements ↔ lines = [] ∨
      ∀ statement ∈ (module.body.drop module.leadingEnd).flatMap Node.statements,
        statement.isFuture = false)

theorem keepsOpening_insertLeading (module : Module) (ordinary : AreOrdinary lines) :
    KeepsOpening module module (module.insertLeading lines) lines := by
  by_cases none : lines = []
  next =>
    subst none
    rw [insertLeading_nil]
    exact ⟨rfl, fun _ => by simp, fun ordered => by simp [ordered]⟩
  next =>
    exact ⟨rfl, fun opens => by simp [none, head_insertLeading_iff none ordinary opens],
      fun ordered => by simp [none, futuresFirst_insertLeading_iff none ordinary ordered]⟩

variable (configs : List (Address × Node))

theorem map_opening_inject (wellFormed : module.wellFormed = true) (n : Nat) :
    (((module.inject configs).body.drop n).flatMap Node.statements).map opening =
      ((module.body.drop n).flatMap Node.statements).map opening := by
  rw [inject, drop_injectFrom]
  refine map_opening_injectFrom configs (fun node mem address => ?_) _ _
  exact Node.map_opening_inject configs ((wellFormed_iff module).1 wellFormed node (List.mem_of_mem_drop mem)) address

theorem head_inject (module : Module) : (module.inject configs).body.head?.any isStringLine =
    module.body.head?.any isStringLine := by
  rw [inject]
  cases module.body with
  | nil => rfl
  | cons first rest =>
    simp only [inject.injectFrom, List.head?_cons, Option.any_some, isStringLine_eq,
      map_smalls_inject (isStringExpression_inject configs)]

theorem KeepsOpening.of_inject {written : Module} (wellFormed : module.wellFormed = true)
    (keeps : KeepsOpening (module.inject configs) (module.inject configs) written lines) :
    KeepsOpening module (module.inject configs) written lines := by
  have whole : (module.inject configs).statements.map opening = module.statements.map opening := by
    simpa [statements] using map_opening_inject configs wellFormed 0
  have string := opensWithString_congr whole
  have futures : (∀ statement ∈ ((module.inject configs).body.drop
        (module.inject configs).leadingEnd).flatMap Node.statements, statement.isFuture = false) ↔
      ∀ statement ∈ (module.body.drop module.leadingEnd).flatMap Node.statements,
        statement.isFuture = false := by
    have read (statements : List Node) : (∀ statement ∈ statements, statement.isFuture = false) ↔
        ∀ shown ∈ statements.map opening, shown.2 = false := by
      simp [opening]
    rw [read, read, leadingEnd_inject, map_opening_inject configs wellFormed]
  refine ⟨string, fun opens => ?_, fun ordered => ?_⟩
  next => rw [← head_inject configs module, keeps.docstring (string.trans opens)]
  next => rw [keeps.futures ((futuresFirst_congr whole).2 ordered), futures]

end Module

theorem Use.mem_needs {settings : Settings} {use : Use} {wanted : Export}
    (needed : wanted ∈ use.needs settings) :
    wanted = settings.bindings ∨ ∃ decision, wanted = Naming.library settings decision := by
  unfold needs at needed
  split at needed
  next => exact absurd needed (by simp)
  next =>
    split at needed
    next classified _ =>
      simp only [List.mem_cons, List.not_mem_nil, or_false] at needed
      exact needed.imp_right fun same => ⟨_, same⟩
    next => exact absurd needed (by simp)

theorem Naming.library_source_ne (settings : Settings) (decision : Decision) {name : String}
    (valid : isIdentifier name = true) : (library settings decision).source ≠ name := by
  rintro rfl
  refine point_not_mem valid ?_
  cases decision <;> simp [library, inputModule, fallbackModule]

/-- Whether docstring and future imports keep their place in front, when a queue is written and in a
grafting, as long as nothing is requested from the future itself. -/
theorem opening_kept_iff {module : Module} (wellFormed : module.wellFormed = true) :
    (∀ registry : Registry, AreOrdinary registry.pending →
      module.KeepsOpening module (registry.apply module).2 registry.pending) ∧
    ∀ settings file tally written, settings.bindingsModule.text ≠ "__future__" →
      (graft settings file tally module).result = .ok (some written) →
        ∃ given lines, written = (module.inject given).insertLeading lines ∧
          module.KeepsOpening (module.inject given) written lines := by
  refine ⟨fun registry ordinary => ?_, fun settings file tally written apart done => ?_⟩
  next =>
    rw [Registry.apply_eq]
    exact Module.keepsOpening_insertLeading module ordinary
  next =>
    obtain ⟨survey, given, added, lines, -, grafts, firsts, -⟩ := grafts_of_ok_in_order wellFormed done
    have same := grafts.result.symm.trans done
    split at same
    next => exact absurd same (by simp)
    next =>
      obtain rfl := Option.some.inj (Except.ok.inj same)
      refine ⟨given, lines, rfl, .of_inject given wellFormed
        (Module.keepsOpening_insertLeading _ fun line mem => ?_)⟩
      obtain ⟨entry, among, imports⟩ := grafts.exists_importsAs mem
      refine ⟨entry.1, entry.2, imports, ?_⟩
      have needed : entry.1 ∈ Settings.distinct _ := firsts ▸ List.mem_map_of_mem among
      obtain ⟨use, -, needed⟩ :=
        List.mem_flatMap.1 (List.mem_filter.1 (Settings.mem_distinct.1 needed)).1
      obtain bindings | ⟨decision, library⟩ := Use.mem_needs needed
      next => rwa [bindings]
      next =>
        rw [library]
        exact Naming.library_source_ne settings decision (by decide +kernel)

/-- A docstring and a future import on lines of their own. -/
theorem opening_kept_plain : ∃ module written,
    Module.parse? "\"\"\"Form module.\"\"\"\nfrom __future__ import annotations\nfrom formkit.vue import FormKit\nFormKit(el)\n" = some module ∧
      (graft .standard none {} module).result = .ok (some written) ∧
        FuturesFirst written.statements ∧ opensWithString written.statements = true := by
  have check : ((Module.parse? "\"\"\"Form module.\"\"\"\nfrom __future__ import annotations\nfrom formkit.vue import FormKit\nFormKit(el)\n").bind
      fun module => (graft .standard none {} module).result.toOption.join.map fun _ =>
        decide (FuturesFirst module.statements) && opensWithString module.statements &&
          module.body.head?.any isStringLine &&
            ((module.body.drop module.leadingEnd).flatMap Node.statements).all (!·.isFuture)) = some true := by
    decide +kernel
  obtain ⟨module, parsed, check⟩ := Option.bind_eq_some_iff.1 check
  obtain ⟨written, done, check⟩ := Option.map_eq_some_iff.1 check
  simp only [Bool.and_eq_true, decide_eq_true_eq, List.all_eq_true, Bool.not_eq_true'] at check
  obtain ⟨⟨⟨ordered, opens⟩, alone⟩, ahead⟩ := check
  have result := eq_ok_of_toOption (Option.join_eq_some_iff.1 done)
  obtain ⟨given, lines, rfl, keeps⟩ :=
    (opening_kept_iff (Module.wellFormed_of_parse? parsed)).2 .standard none {} written (by decide) result
  refine ⟨module, _, parsed, result, (keeps.futures ordered).2 (.inr ahead), ?_⟩
  rw [opensWithString, (keeps.docstring opens).2 (.inr alone)]
  exact keeps.string.trans opens

/-- A docstring that shares its line with a future import loses its place, and so does that import. -/
theorem opening_lost_on_shared_line : ∃ module written,
    Module.parse? "\"\"\"Form module.\"\"\"; from __future__ import annotations\nfrom formkit.vue import FormKit\nFormKit(el)\n" = some module ∧
      FuturesFirst module.statements ∧ opensWithString module.statements = true ∧
        (graft .standard none {} module).result = .ok (some written) ∧
          ¬ FuturesFirst written.statements ∧ opensWithString written.statements = false := by
  have check : ((Module.parse? "\"\"\"Form module.\"\"\"; from __future__ import annotations\nfrom formkit.vue import FormKit\nFormKit(el)\n").bind
      fun module => (graft .standard none {} module).result.toOption.join.map fun written =>
        decide (FuturesFirst module.statements) && opensWithString module.statements &&
          !decide (FuturesFirst written.statements) && !opensWithString written.statements) =
        some true := by
    decide +kernel
  obtain ⟨module, parsed, check⟩ := Option.bind_eq_some_iff.1 check
  obtain ⟨written, done, check⟩ := Option.map_eq_some_iff.1 check
  simp only [Bool.and_eq_true, decide_eq_true_eq, Bool.not_eq_true', decide_eq_false_iff_not] at check
  obtain ⟨⟨⟨ordered, opens⟩, lost⟩, behind⟩ := check
  exact ⟨module, written, parsed, ordered, opens, eq_ok_of_toOption (Option.join_eq_some_iff.1 done), lost, behind⟩

end Graft
