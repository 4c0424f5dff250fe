import Graft.Proofs.Grammar.Expression

set_option autoImplicit false

/-!
The arguments of a call come out in an order that the grammar allows. The phase of the list says
which arguments may still come.
-/
namespace Graft.Grammar

open Reader

/-- The arguments that may come in a phase. -/
def Phase.allows : Phase → Argument → Bool
  | .positional, _ => true
  | .keyword, argument => !argument.isPositional
  | .mapping, argument => !argument.isPositional && (!argument.isStarred || argument.isMapping)

def ArgumentHead.argument (head : ArgumentHead) (value : Node) (comma gap : List Leaf) : Argument :=
  ⟨head.star, Argument.keywordOf head.keyword, value, comma, gap⟩

theorem ofNode?_argumentNode (head : ArgumentHead) (value : Node) (comma gap : List Leaf) :
    Argument.ofNode? (argumentNode head value comma gap) = some (head.argument value comma gap) := by
  simp [argumentNode, Argument.ofNode?, Node.plain, ArgumentHead.argument]

/-- What a head may be in a phase, and the phase after it. -/
inductive ArgumentHead.Follows (head : ArgumentHead) (phase : Phase) : Prop where
  | plain (star : head.star = []) (keyword : head.keyword = .absent)
      (before : phase = .positional) (after : head.phase = phase)
  | sequence (star : head.star.head? = some (.text "*")) (keyword : head.keyword = .absent)
      (before : phase ≠ .mapping) (after : head.phase = phase)
  | mapping (star : head.star.head? = some (.text "**")) (keyword : head.keyword = .absent)
      (after : head.phase = .mapping)
  | keyword (star : head.star = [])
      (keyword : ∃ id equals, head.keyword = .plain .keyword [.name {} id, .glue equals])
      (after : head.phase = if phase = .mapping then .mapping else .keyword)

theorem argumentHead_yields (phase : Phase) :
    Yields (argumentHead phase) fun head => head.Follows phase := by
  refine .step fun _ => .ite (fun _ => .ite (fun _ => .failure) fun before => ?_) fun _ =>
    .step fun _ => .ite (fun _ => ?_) fun _ => .step fun _ => .step fun _ => .ite (fun _ => ?_)
      fun _ => .ite (fun before => ?_) fun _ => .failure
  next => exact .bind (opening_yields "*") fun _ star => .pure (.sequence star rfl before rfl)
  next => exact .bind (opening_yields "**") fun _ star => .pure (.mapping star rfl rfl)
  next =>
    refine .bind (P := fun node => ∃ id, node = .name {} id) (.step fun id => .pure ⟨id, rfl⟩)
      fun node named => .step fun equals => .pure ?_
    obtain ⟨id, rfl⟩ := named
    exact .keyword rfl ⟨id, equals, rfl⟩ rfl
  next => exact .pure (.plain rfl rfl before rfl)

namespace ArgumentHead.Follows

variable {head : ArgumentHead} {phase : Phase} (follows : head.Follows phase)

include follows

theorem allowed (value : Node) (comma gap : List Leaf) :
    phase.allows (head.argument value comma gap) = true := by
  cases follows with
  | plain star keyword before after => simp [Phase.allows, before]
  | sequence star keyword before after =>
    have starred : head.star ≠ [] := by rintro h; simp [h] at star
    cases phase <;> simp_all [Phase.allows, Argument.isPositional, ArgumentHead.argument]
  | mapping star keyword after =>
    have starred : head.star ≠ [] := by rintro h; simp [h] at star
    cases phase <;> simp_all [Phase.allows, Argument.isPositional, ArgumentHead.argument,
      Argument.isMapping]
  | keyword star keyword after =>
    obtain ⟨id, equals, keyword⟩ := keyword
    cases phase <;> simp [Phase.allows, Argument.isPositional, ArgumentHead.argument, star, keyword,
      Node.plain, Argument.keywordOf, Argument.isStarred]

theorem mayPrecede (value : Node) (comma gap : List Leaf) {later : Argument}
    (allows : head.phase.allows later = true) :
    (head.argument value comma gap).mayPrecede later = true := by
  cases follows with
  | plain star keyword before after =>
    simp [Argument.mayPrecede, ArgumentHead.argument, Argument.isMapping, star, keyword,
      Node.absent, Node.plain, Argument.keywordOf]
  | sequence star keyword before after =>
    simp [Argument.mayPrecede, ArgumentHead.argument, Argument.isMapping, star, keyword,
      Node.absent, Node.plain, Argument.keywordOf]
  | mapping star keyword after =>
    simp_all [Argument.mayPrecede, Phase.allows]
  | keyword star keyword after =>
    obtain ⟨id, equals, keyword⟩ := keyword
    have lone : later.isPositional = false := by
      rw [after] at allows
      split at allows <;> simp_all [Phase.allows]
    simp [Argument.mayPrecede, ArgumentHead.argument, Argument.isMapping, star, lone]

theorem allows_of_allows {later : Argument} (allows : head.phase.allows later = true) :
    phase.allows later = true := by
  cases follows with
  | plain _ _ _ after => exact after ▸ allows
  | sequence _ _ _ after => exact after ▸ allows
  | mapping _ _ after => cases phase <;> simp_all [Phase.allows]
  | keyword _ _ after => cases phase <;> simp_all [Phase.allows]

theorem keyword_part : head.keyword.Part ∧
    (head.keyword.isAbsent = true ∨ head.keyword.isA .keyword = true) := by
  have missing (keyword : head.keyword = .absent) : head.keyword.Part ∧
      (head.keyword.isAbsent = true ∨ head.keyword.isA .keyword = true) := by
    rw [keyword]
    exact ⟨.absent, .inl rfl⟩
  cases follows with
  | plain _ keyword => exact missing keyword
  | sequence _ keyword => exact missing keyword
  | mapping _ keyword => exact missing keyword
  | keyword _ keyword =>
    obtain ⟨id, equals, keyword⟩ := keyword
    rw [keyword]
    refine ⟨⟨(Node.wellFormed_branch _ _ _).2 ⟨rfl, ?_⟩, rfl, rfl, Node.isTidy_branch (by decide) {} ?_⟩,
      .inr rfl⟩
    next => simp [Node.Part.wellFormed]
    next => simp [Node.Part.isTidy]

theorem keyword_isBare : head.keyword.isBare = true := by
  cases follows with
  | plain _ keyword => rw [keyword]; rfl
  | sequence _ keyword => rw [keyword]; rfl
  | mapping _ keyword => rw [keyword]; rfl
  | keyword _ keyword =>
    obtain ⟨id, equals, keyword⟩ := keyword
    rw [keyword]
    rfl

theorem isPlain_iff : head.isPlain = true ↔ head.star = [] ∧ head.keyword = .absent := by
  refine ⟨fun plain => ?_, fun h => by simp [ArgumentHead.isPlain, h]; rfl⟩
  simp only [ArgumentHead.isPlain, Bool.and_eq_true, List.isEmpty_iff] at plain
  refine ⟨plain.1, ?_⟩
  cases follows with
  | plain _ keyword => exact keyword
  | sequence _ keyword => exact keyword
  | mapping _ keyword => exact keyword
  | keyword _ keyword =>
    obtain ⟨id, equals, keyword⟩ := keyword
    simp [keyword, Node.isAbsent, Node.plain] at plain

theorem node_part {value : Node} (wellFormed : value.wellFormed = true)
    (apart : value.isStatement = false) (tidy : value.IsTidy) {comma gap : List Leaf}
    (either : comma = [] ∨ gap = []) : (argumentNode head value comma gap).Part := by
  obtain ⟨word, shape⟩ := follows.keyword_part
  refine ⟨(Node.wellFormed_branch _ _ _).2 ⟨?_, ?_⟩, rfl, rfl, Node.isTidy_of_own ?_ ?_⟩
  next =>
    have glue (leaves : List Leaf) : (Node.glue leaves).isA .glue = true := rfl
    have bare (leaves : List Leaf) : (Node.glue leaves).isBare = true := rfl
    simp [Shape.fits, Shape.hasRoles, glue, shape, apart, word.isStatement, Node.Part.isStatement,
      bare, follows.keyword_isBare]
  next => simp [wellFormed, word.wellFormed, Node.Part.wellFormed]
  next =>
    intro argument read
    rw [ofNode?_argumentNode] at read
    exact Option.some.inj read ▸ either
  next => simp [argumentNode, Node.plain, tidy, word.isTidy, Node.Part.isTidy]

end ArgumentHead.Follows

/-- What a list of arguments is that is read in a phase. `sole` says that nothing stands before
it. -/
structure ReadArguments (sole : Bool) (phase : Phase) (nodes : List Node) : Prop where
  parts : ∀ node ∈ nodes, node.Part ∧ node.isA .argument = true
  bare : nodes.all Node.isBare = true
  separated : Argument.areSeparated (nodes.filterMap Argument.ofNode?) = true
  allowed : ∀ argument ∈ nodes.filterMap Argument.ofNode?, phase.allows argument = true
  ordered : Argument.areOrdered (nodes.filterMap Argument.ofNode?) = true
  generators : (∀ argument ∈ nodes.filterMap Argument.ofNode?, argument.isGenerator = false) ∨
    sole = true ∧ ∃ value gap, nodes.filterMap Argument.ofNode? = [⟨[], none, value, [], gap⟩]

namespace ReadArguments

variable {sole : Bool} {phase : Phase} {head : ArgumentHead} {value : Node}

theorem empty : ReadArguments sole phase [] := by
  constructor <;> simp [Argument.areOrdered, Argument.areSeparated]

theorem last (follows : head.Follows phase) (part : value.Part) (gap : List Leaf) :
    ReadArguments sole phase [argumentNode head value [] gap] where
  parts := by
    simp only [List.mem_singleton, forall_eq]
    exact ⟨follows.node_part part.wellFormed part.isStatement part.isTidy (.inl rfl), rfl⟩
  bare := rfl
  separated := rfl
  allowed := by simpa [ofNode?_argumentNode] using follows.allowed value [] gap
  ordered := by simp [ofNode?_argumentNode, Argument.areOrdered]
  generators := by
    refine .inl fun argument mem => ?_
    simp only [List.filterMap_cons, ofNode?_argumentNode, List.filterMap_nil,
      List.mem_singleton] at mem
    exact mem ▸ part.isBareGenerator

theorem generator (follows : head.Follows phase) (plain : head.isPlain = true)
    (wellFormed : value.wellFormed = true) (apart : value.isStatement = false) (tidy : value.IsTidy)
    (gap : List Leaf) : ReadArguments true phase [argumentNode head value [] gap] where
  parts := by
    simp only [List.mem_singleton, forall_eq]
    exact ⟨follows.node_part wellFormed apart tidy (.inl rfl), rfl⟩
  bare := rfl
  separated := rfl
  allowed := by simpa [ofNode?_argumentNode] using follows.allowed value [] gap
  ordered := by simp [ofNode?_argumentNode, Argument.areOrdered]
  generators := by
    obtain ⟨star, keyword⟩ := follows.isPlain_iff.1 plain
    exact .inr ⟨rfl, value, gap, by
      simp [ofNode?_argumentNode, ArgumentHead.argument, star, keyword]; rfl⟩

theorem cons (follows : head.Follows phase) (part : value.Part) {comma : List Leaf}
    (owned : comma ≠ []) {rest : List Node} (read : ReadArguments false head.phase rest) :
    ReadArguments sole phase (argumentNode head value comma [] :: rest) where
  parts := by
    simp only [List.mem_cons, forall_eq_or_imp]
    exact ⟨⟨follows.node_part part.wellFormed part.isStatement part.isTidy (.inr rfl), rfl⟩, read.parts⟩
  bare := read.bare
  separated := by
    have later := read.separated
    simp only [List.filterMap_cons, ofNode?_argumentNode]
    unfold Argument.areSeparated at later ⊢
    cases others : rest.filterMap Argument.ofNode? with
    | nil => rfl
    | cons second others =>
      rw [List.dropLast_cons_cons, List.all_cons, ← others, later]
      simp [ArgumentHead.argument, owned]
  allowed := by
    simp only [List.filterMap_cons, ofNode?_argumentNode, List.mem_cons, forall_eq_or_imp]
    exact ⟨follows.allowed value comma [], fun later mem =>
      follows.allows_of_allows (read.allowed later mem)⟩
  ordered := by
    simp only [List.filterMap_cons, ofNode?_argumentNode, Argument.areOrdered, Bool.and_eq_true,
      List.all_eq_true]
    exact ⟨fun later mem => follows.mayPrecede value comma [] (read.allowed later mem), read.ordered⟩
  generators := by
    refine .inl ?_
    simp only [List.filterMap_cons, ofNode?_argumentNode, List.mem_cons, forall_eq_or_imp]
    exact ⟨part.isBareGenerator, read.generators.resolve_right (by simp)⟩

theorem grammatical {nodes : List Node} (read : ReadArguments sole phase nodes) :
    Argument.areGrammatical (nodes.filterMap Argument.ofNode?) = true := by
  have ordered := read.ordered
  obtain none | ⟨-, value, gap, only⟩ := read.generators
  next =>
    unfold Argument.areGrammatical
    rw [ordered, Bool.true_and]
    split
    next only same => simp [none only (by simp [same])]
    next => exact List.all_eq_true.2 fun argument mem => by simp [none argument mem]
  next => simp [only, Argument.areGrammatical, Argument.areOrdered, Argument.isPositional]

theorem arguments_part {nodes : List Node} (read : ReadArguments sole phase nodes) :
    (Node.plain .arguments nodes).Part := by
  refine ⟨(Node.wellFormed_branch _ _ _).2 ⟨?_, fun node mem => (read.parts node mem).1.wellFormed⟩,
    rfl, rfl, Node.isTidy_branch (by decide) {} fun node mem => (read.parts node mem).1.isTidy⟩
  have kinds : nodes.all (·.isA .argument) = true :=
    List.all_eq_true.2 fun node mem => (read.parts node mem).2
  have apart := Node.Part.apart fun node mem => (read.parts node mem).1
  rw [Shape.fits, Shape.hasRoles, kinds, read.grammatical, read.bare, read.separated, apart]
  rfl

end ReadArguments

section

variable {rules : Rules} (good : ∀ goal, Yields (rules goal) Node.Part)

include good

theorem argumentValue_yields (head : ArgumentHead) : Yields (argumentValue rules head) Node.Part :=
  .ite (fun _ => named_yields good) fun _ => good _

theorem argumentsFrom_yields (fuel : Nat) (sole : Bool) (phase : Phase) :
    Yields (argumentsFrom rules fuel sole phase) (ReadArguments sole phase) := by
  induction fuel generalizing sole phase with
  | zero => exact .failure
  | succ fuel ih =>
    refine .step fun _ => .ite (fun _ => .pure .empty) fun _ => .bind (argumentHead_yields phase)
      fun head follows => .bind (argumentValue_yields good head) fun value part => .step fun _ =>
        .ite (fun _ => ?_) fun _ => .step fun _ => ?_
    next =>
      exact .bind (sign_yields ",") fun comma owned => .bind (ih false head.phase) fun _ read =>
        .pure (.cons follows part owned read)
    have close {value : Node} (read : ∀ gap, ReadArguments sole phase [argumentNode head value [] gap]) :
        Yields (do
          let gap ← gap
          if ← atWord ")" then return [argumentNode head value [] gap] else failure)
          (ReadArguments sole phase) :=
      .step fun gap => .step fun _ => .ite (fun _ => .pure (read gap)) fun _ => .failure
    refine .ite (fun alone => ?_) fun _ => .bind (.pure part) fun _ part => close (.last follows part)
    simp only [Bool.and_eq_true] at alone
    obtain ⟨⟨-, rfl⟩, plain⟩ := alone
    exact .bind (comprehension_yields good (.inl rfl) (.plain rfl (by simp [part])))
      fun _ h => close (.generator follows plain h.1 h.2.1 h.2.2.1)

theorem arguments_yields : Yields (arguments rules) (ReadArguments true .positional) :=
  .step fun _ => argumentsFrom_yields good _ _ _

theorem callArguments_yields {callee : Node} (part : callee.Part) :
    Yields (callArguments rules callee) Node.Part := by
  refine .step fun before => .bind (arguments_yields good) fun nodes read => .step fun closing =>
    .pure ⟨(Node.wellFormed_branch _ _ _).2 ⟨?_, ?_⟩, rfl, rfl, Node.isTidy_branch (by decide) {} ?_⟩
  next =>
    have apart : ∀ node ∈ [callee, .glue before, .plain .arguments nodes, .glue closing], node.Part := by
      simp [part, read.arguments_part]
    rw [Shape.fits, Node.Part.apart apart]
    rfl
  next => simp [part.wellFormed, read.arguments_part.wellFormed, Node.Part.wellFormed]
  next => simp [part.isTidy, read.arguments_part.isTidy, Node.Part.isTidy]

end

end Graft.Grammar
