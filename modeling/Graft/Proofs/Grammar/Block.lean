import Graft.Proofs.Grammar.Statement

set_option autoImplicit false

/-!
Compound statements have what statements inherit if the statements inside them have it, and so have all
statements of a source. In particular they are well formed.
-/
namespace Graft.Grammar

open Script Reader

theorem rulesFor_yields (line : Source.Line) (goal : Goal) : Yields (rulesFor line goal) Node.Part :=
  rules_yields _ goal

theorem header_yields {reader : Rules → Reader (List Node)} {P : List Node → Prop}
    (reads : ∀ line, Yields (reader (rulesFor line)) P) :
    Yields (header reader) fun header => P header.parts := by
  refine .step fun line => .bind (.ofOption (P := fun found => P found.1) fun found run => ?_)
    fun found h => .pure h
  exact reads line _ found.1 found.2 run

/-- The parts of a header that keeps none of them for a role. -/
abbrev AreParts (nodes : List Node) : Prop := ∀ node ∈ nodes, node.Part

section

variable {Holds : Node → Prop} (inherits : Inherits Holds)

include inherits

theorem AreParts.each {nodes : List Node} (parts : AreParts nodes) : ∀ node ∈ nodes, Holds node :=
  fun node mem => inherits.part (parts node mem)

theorem smallStatements_each {line : Source.Line} {fuel : Nat} {tokens : List Source.Token}
    {smalls : List Node}
    (read : Reader.whole (smallStatements (rulesFor line) fuel) tokens = some smalls) :
    ∀ node ∈ smalls, Holds node :=
  Yields.whole (smallStatements_yields inherits (rulesFor_yields line) fuel) read

theorem simpleLine_yields : Yields simpleLine Holds := by
  refine .step fun line => .bind (.ofOption fun _ => smallStatements_each inherits) fun smalls h =>
    .pure (inherits.free rfl ?_)
  simpa [or_imp, forall_and, inherits.glue] using h

section

variable {statements : Nat → Script (List Node)}
  (good : ∀ depth, Yields (statements depth) fun nodes => ∀ node ∈ nodes, Holds node)

include good

theorem block_yields (header : Header) : Yields (block statements header) Holds := by
  refine .step fun found => ?_
  cases found with
  | none => exact .failure
  | some line =>
    refine .ite (fun _ => .bind (good _) fun body h => .step fun footer =>
      .pure (inherits.free rfl ?_)) fun _ => .failure
    simpa [or_imp, forall_and, inherits.glue] using h

theorem suite_yields (header : Header) : Yields (suite statements header) Holds := by
  unfold suite
  split
  next => exact block_yields inherits good header
  next =>
    refine .bind (.ofOption fun _ => smallStatements_each inherits) fun smalls h =>
      .pure (inherits.free rfl ?_)
    simpa [or_imp, forall_and, inherits.glue] using h

theorem clause_yields {reader : Rules → Reader (List Node)}
    (reads : ∀ line, Yields (reader (rulesFor line)) AreParts) : Yields (clause statements reader) Holds := by
  refine .bind (header_yields reads) fun header parts => .bind (suite_yields inherits good header)
    fun body h => .pure (inherits.free rfl ?_)
  simpa [h, or_imp, forall_and, inherits.glue] using parts.each inherits

omit inherits good in
theorem wordClause_yields (word : String) (rules : Rules) : Yields (wordClause word rules) AreParts :=
  .step fun _ => .step fun _ => .pure (by simp [AreParts])

theorem otherwise_yields (depth : Nat) : Yields (otherwise statements depth) Holds :=
  .step fun _ => .ite (fun _ => clause_yields inherits good fun _ => wordClause_yields _ _) fun _ =>
    .pure inherits.absent

omit inherits good in
theorem testClause_yields (word : String) (line : Source.Line) :
    Yields (testClause word (rulesFor line)) AreParts :=
  .step fun _ => .bind (named_yields (rulesFor_yields line)) fun _ part => .step fun _ =>
    .pure (by simp [AreParts, part])

theorem elifs_yields (depth fuel : Nat) :
    Yields (elifs statements depth fuel) fun nodes => ∀ node ∈ nodes, Holds node := by
  induction fuel with
  | zero => exact .failure
  | succ fuel ih =>
    refine .step fun _ => .ite (fun _ => ?_) fun _ => .pure (by simp)
    exact .bind (clause_yields inherits good (testClause_yields _)) fun _ head => .bind ih fun _ tail =>
      .pure (by simpa [head] using tail)

theorem ifChain_yields (depth : Nat) : Yields (ifChain statements depth) Holds := by
  refine .bind (clause_yields inherits good (testClause_yields _)) fun _ head => .step fun _ =>
    .bind (elifs_yields inherits good depth _) fun _ others => .bind (otherwise_yields inherits good depth)
      fun _ last => .pure (inherits.free rfl ?_)
  simpa [head, last, or_imp, forall_and, inherits.glue] using others

theorem whileLoop_yields (depth : Nat) : Yields (whileLoop statements depth) Holds :=
  .bind (clause_yields inherits good (testClause_yields _)) fun _ head =>
    .bind (otherwise_yields inherits good depth) fun _ last =>
      .pure (inherits.free rfl (by simp [head, last]))

theorem forLoop_yields (depth : Nat) : Yields (forLoop statements depth) Holds := by
  refine .bind (header_yields (P := AreParts) fun line => ?_) fun header parts =>
    .bind (suite_yields inherits good header) fun body h => .bind (otherwise_yields inherits good depth)
      fun other last => .pure (inherits.free rfl ?_)
  next =>
    exact .step fun _ => .bind (starTargets_yields (rulesFor_yields line)) fun _ target =>
      .step fun _ => .bind (starExpressions_yields (rulesFor_yields line)) fun _ iterable =>
        .step fun _ => .pure (by simp [AreParts, target, iterable])
  next => simpa [h, last, or_imp, forall_and, inherits.glue] using parts.each inherits

omit inherits good in
theorem withItem_yields (line : Source.Line) (comma : Reader (List Leaf)) :
    Yields (withItem (rulesFor line) comma) Node.Part :=
  .bind (rulesFor_yields line _) fun _ part =>
    .bind (binderAs_yields (starTarget_yields (rulesFor_yields line))) fun _ binder =>
      .step fun _ => .pure (.plain rfl (by simp [part, binder]))

omit inherits good in
theorem withItems_yields (line : Source.Line) (close : String) (trailing : Bool) (fuel : Nat) :
    Yields (withItems (rulesFor line) close trailing fuel) AreParts := by
  induction fuel with
  | zero => exact .failure
  | succ fuel ih =>
    refine .bind (withItem_yields line _) fun _ part => .step fun _ => .ite (fun _ =>
      .ite (fun _ => .pure (by simp [AreParts, part])) fun _ => .failure) fun _ => .ite (fun _ => ?_)
        fun _ => .failure
    exact .bind ih fun _ tail => .pure (by simpa [AreParts, part] using tail)

omit inherits good in
theorem withHeader_yields (line : Source.Line) : Yields (withHeader (rulesFor line)) AreParts := by
  refine .step fun _ => .step fun _ => .orElse ?_ ?_
  next =>
    exact .step fun _ => .bind (withItems_yields line _ _ _) fun _ items => .step fun _ =>
      .step fun _ => .pure (by simpa [AreParts, or_imp, forall_and] using items)
  next =>
    exact .bind (withItems_yields line _ _ _) fun _ items => .step fun _ =>
      .pure (by simpa [AreParts, or_imp, forall_and] using items)

theorem withBlock_yields : Yields (withBlock statements) Holds :=
  clause_yields inherits good withHeader_yields

omit inherits good in
theorem handlerHeader_yields (group : Bool) (line : Source.Line) :
    Yields (handlerHeader group (rulesFor line)) AreParts := by
  have finish (word : List Leaf) {caught binder : Node} (part : caught.Part) (bound : binder.Part) :
      Yields (do
        let after ← mark ":"
        return [.glue word, caught, binder, .glue after]) AreParts :=
    .step fun _ => .pure (by simp [AreParts, part, bound])
  have main (word : List Leaf) : Yields (do
      if (← atWord ":") && !group then return [.glue (word ++ (← mark ":"))]
      else
        let gap ← gap
        let caught ← itemsOrTuple (rulesFor line .expression)
        let binder ← if caught.isA .tuple && caught.parens.opening.isEmpty then pure .absent
          else binderAs name
        return [.glue (word ++ gap), caught, binder, .glue (← mark ":")]) AreParts := by
    refine .step fun _ => .ite (fun _ => .step fun _ => .pure (by simp [AreParts])) fun _ =>
      .step fun _ => .bind (itemsOrTuple_yields (rulesFor_yields line _)) fun _ part =>
        .ite (fun _ => .bind (.pure .absent) fun _ bound => finish _ part bound) fun _ => ?_
    exact .bind (binderAs_yields (name_yields.imp fun _ h => h.1)) fun _ bound => finish _ part bound
  exact .step fun _ => .ite (fun _ => .step fun _ => .step main) fun _ => .step main

theorem handlers_yields (depth : Nat) (group : Bool) (fuel : Nat) :
    Yields (handlers statements depth group fuel) fun nodes => ∀ node ∈ nodes, Holds node := by
  induction fuel with
  | zero => exact .failure
  | succ fuel ih =>
    refine .step fun _ => .ite (fun _ => .step fun _ => .ite (fun _ => ?_) fun _ => .failure)
      fun _ => .pure (by simp)
    exact .bind (clause_yields inherits good (handlerHeader_yields group)) fun _ head => .bind ih
      fun _ tail => .pure (by simpa [head] using tail)

theorem tryBlock_yields (depth : Nat) : Yields (tryBlock statements depth) Holds := by
  refine .bind (header_yields (P := AreParts) fun _ => wordClause_yields _ _) fun header parts =>
    .bind (suite_yields inherits good header) fun body h => .step fun group => .step fun _ =>
      .bind (handlers_yields inherits good depth group _) fun handlers caught => ?_
  have finish {other last : Node} (otherwise : Holds other) (ending : Holds last) : Yields (do
        if handlers.isEmpty && last.isAbsent then failure
        else
          let kind := if group && !handlers.isEmpty then Kind.tryGroup else Kind.tryBlock
          return .plain kind
            (.glue header.line.before :: header.parts ++ body :: handlers ++ [other, last]) : Script Node) Holds := by
    refine .ite (fun _ => .failure) fun _ => .pure (inherits.free ?_ ?_)
    next => split <;> rfl
    next => simpa [h, otherwise, ending, or_imp, forall_and, inherits.glue] using ⟨parts.each inherits, caught⟩
  have rest {other : Node} (otherwise : Holds other) : Yields (do
      let last ← if ← atWords depth ["finally"] then clause statements (wordClause "finally")
        else pure .absent
      if handlers.isEmpty && last.isAbsent then failure
      else
        let kind := if group && !handlers.isEmpty then Kind.tryGroup else Kind.tryBlock
        return .plain kind
          (.glue header.line.before :: header.parts ++ body :: handlers ++ [other, last]) : Script Node) Holds :=
    .step fun _ => .ite (fun _ => .bind (clause_yields inherits good fun _ => wordClause_yields _ _)
      fun _ last => finish otherwise last) fun _ => .bind (.pure inherits.absent)
        fun _ last => finish otherwise last
  exact .ite (fun _ => .bind (.pure inherits.absent) fun _ h => rest h) fun _ =>
    .bind (otherwise_yields inherits good depth) fun _ h => rest h

omit inherits good in
theorem caseHeader_yields (line : Source.Line) : Yields (caseHeader (rulesFor line)) AreParts := by
  refine .step fun word => .bind (casePatterns_yields (rulesFor_yields line)) fun pattern part => ?_
  have finish {guard : List Node} (parts : AreParts guard) : Yields (do
      let after ← mark ":"
      return .glue word :: pattern :: guard ++ [.glue after]) AreParts :=
    .step fun _ => .pure (by simpa [AreParts, part, or_imp, forall_and] using parts)
  refine .step fun _ => .ite (fun _ => ?_) fun _ => .bind (.pure (by simp [AreParts])) fun _ => finish
  exact .bind (P := AreParts) (.step fun _ => .bind (named_yields (rulesFor_yields line))
    fun _ test => .pure (by simp [AreParts, test])) fun _ => finish

theorem cases_yields (depth fuel : Nat) :
    Yields (cases statements depth fuel) fun nodes => ∀ node ∈ nodes, Holds node := by
  induction fuel with
  | zero => exact .failure
  | succ fuel ih =>
    refine .step fun _ => .ite (fun _ => ?_) fun _ => .pure (by simp)
    exact .bind (clause_yields inherits good caseHeader_yields) fun _ head => .bind ih fun _ tail =>
      .pure (by simpa [head] using tail)

omit inherits good in
theorem subject_yields (line : Source.Line) : Yields (subject (rulesFor line)) Node.Part := by
  have items := starOr_yields (rulesFor_yields line) (named_yields (rulesFor_yields line))
  refine .bind items fun _ head => .bind (moreItems_yields items) fun _ tail => .ite (fun _ =>
    .ite (fun _ => .failure) fun _ => .pure head) fun _ => .pure (.plain rfl ?_)
  simpa [head] using tail

theorem matchBlock_yields (depth : Nat) : Yields (matchBlock statements depth) Holds := by
  refine .bind (header_yields (P := AreParts) fun line => .step fun _ =>
    .bind (subject_yields line) fun _ part => .step fun _ => .pure (by simp [AreParts, part]))
      fun header parts => .step fun found => ?_
  split
  next =>
    refine .ite (fun _ => .step fun _ => .bind (cases_yields inherits good _ _) fun nodes each =>
      .step fun deeper => .ite (fun _ => .failure) fun _ => .step fun _ =>
        .pure (inherits.free rfl ?_)) fun _ => .failure
    simpa [or_imp, forall_and, inherits.glue] using ⟨parts.each inherits, each⟩
  next => exact .failure

omit inherits good in
theorem returns_yields (line : Source.Line) : Yields (returns (rulesFor line)) Node.Part :=
  .step fun _ => .ite (fun _ => .step fun _ => .bind (rulesFor_yields line _) fun _ part =>
    .pure (.plain rfl (by simp [part]))) fun _ => .pure .absent

omit inherits good in
theorem decorated_part {decorators : List Node} (parts : AreParts decorators) (header : Header) :
    (decorated decorators header).Part :=
  .plain rfl (by simpa [or_imp, forall_and] using parts)

theorem function_yields {decorators : List Node} (above : AreParts decorators) :
    Yields (function statements decorators) Holds := by
  refine .bind (header_yields (P := AreParts) fun line => ?_) fun header parts =>
    .bind (suite_yields inherits good header) fun body h => .pure (inherits.free rfl ?_)
  next =>
    exact .step fun _ => .bind name_yields fun _ named =>
      .bind (typeParameters_yields (rulesFor_yields line)) fun _ types => .step fun _ =>
        .bind (parameters_yields (rulesFor_yields line) ")") fun _ parameters => .step fun _ =>
          .bind (returns_yields line) fun _ returns => .step fun _ =>
            .pure (by simp [AreParts, named.1, types, parameters, returns])
  next =>
    have lines := inherits.part (decorated_part above header)
    simpa [h, lines, or_imp, forall_and, inherits.glue] using parts.each inherits

theorem classDef_yields {decorators : List Node} (above : AreParts decorators) :
    Yields (classDef statements decorators) Holds := by
  refine .bind (header_yields (P := AreParts) fun line => ?_) fun header parts =>
    .bind (suite_yields inherits good header) fun body h => .pure (inherits.free rfl ?_)
  next =>
    refine .step fun word => .bind name_yields fun name named =>
      .bind (typeParameters_yields (rulesFor_yields line)) fun types typed => ?_
    have finish {bases : List Node} (based : AreParts bases) : Yields (do
        let after ← mark ":"
        return [.glue word, name, types] ++ bases ++ [.glue after]) AreParts :=
      .step fun _ => .pure (by simpa [AreParts, named.1, typed, or_imp, forall_and] using based)
    have none : (Node.plain .arguments []).Part :=
      (ReadArguments.empty : ReadArguments true .positional []).arguments_part
    refine .step fun _ => .ite (fun _ => ?_) fun _ =>
      .bind (.pure (by simp [AreParts, none])) fun _ => finish
    exact .bind (P := AreParts) (.step fun _ => .step fun _ => .bind
      (argumentsFrom_yields (rulesFor_yields line) _ _ _) fun _ read => .step fun _ =>
        .pure (by simp [AreParts, read.arguments_part])) fun _ => finish
  next =>
    have lines := inherits.part (decorated_part above header)
    simpa [h, lines, or_imp, forall_and, inherits.glue] using parts.each inherits

omit inherits good in
theorem decoratorLines_yields (depth fuel : Nat) : Yields (decoratorLines depth fuel) AreParts := by
  induction fuel with
  | zero => exact .failure
  | succ fuel ih =>
    refine .step fun _ => .ite (fun _ => .step fun line => .bind (.ofOption (P := AreParts)
      fun parts read => ?_) fun _ head => .bind ih fun _ tail => .pure ?_) fun _ =>
        .pure (by simp [AreParts])
    next =>
      refine Yields.whole (P := AreParts) (.step fun _ =>
        .bind (named_yields (rulesFor_yields line)) fun _ part => .pure ?_) read
      simp [AreParts, part]
    next => simpa [AreParts, or_imp, forall_and] using ⟨head, tail⟩

theorem definition_yields (depth : Nat) {decorators : List Node} (above : AreParts decorators) :
    Yields (definition statements depth decorators) Holds :=
  .step fun _ => .ite (fun _ => function_yields inherits good above) fun _ => .step fun _ =>
    .ite (fun _ => classDef_yields inherits good above) fun _ => .failure

theorem asyncStatement_yields (depth : Nat) : Yields (asyncStatement statements depth) Holds :=
  .step fun _ => .ite (fun _ => function_yields inherits good (by simp [AreParts])) fun _ =>
    .ite (fun _ => forLoop_yields inherits good depth) fun _ =>
      .ite (fun _ => withBlock_yields inherits good) fun _ => .failure

theorem statement_yields (depth : Nat) : Yields (statement statements depth) Holds :=
  .step fun _ => .ite (fun _ => ifChain_yields inherits good depth) fun _ =>
  .step fun _ => .ite (fun _ => whileLoop_yields inherits good depth) fun _ =>
  .step fun _ => .ite (fun _ => forLoop_yields inherits good depth) fun _ =>
  .step fun _ => .ite (fun _ => withBlock_yields inherits good) fun _ =>
  .step fun _ => .ite (fun _ => tryBlock_yields inherits good depth) fun _ =>
  .step fun _ => .ite (fun _ => definition_yields inherits good depth (by simp [AreParts])) fun _ =>
  .step fun _ => .ite (fun _ => asyncStatement_yields inherits good depth) fun _ =>
  .step fun _ => .ite (fun _ => .step fun _ => .bind (decoratorLines_yields depth _)
    fun _ above => definition_yields inherits good depth above) fun _ =>
  .step fun _ => .ite (fun _ => (matchBlock_yields inherits good depth).orElse (simpleLine_yields inherits)) fun _ =>
    simpleLine_yields inherits

end

theorem statements_yields (fuel depth : Nat) :
    Yields (statements fuel depth) fun nodes => ∀ node ∈ nodes, Holds node := by
  induction fuel generalizing depth with
  | zero => exact .failure
  | succ fuel ih =>
    refine .step fun found => ?_
    cases found with
    | none => exact .pure (by simp)
    | some line =>
      refine .ite (fun _ => .pure (by simp)) fun _ => .ite (fun _ => ?_) fun _ => .failure
      exact .bind (statement_yields inherits ih depth) fun _ head => .bind (ih depth) fun _ tail =>
        .pure (by simpa [head] using tail)

end

end Graft.Grammar
