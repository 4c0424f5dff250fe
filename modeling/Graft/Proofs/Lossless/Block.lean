import Graft.Proofs.Lossless.Statement

set_option autoImplicit false

/-!
Compound statements lose nothing, and so the statements of a source do not.
-/
namespace Graft

namespace Source

/-- The leaves of a line, with what stands above it. -/
def Line.leaves (line : Line) : List Leaf :=
  line.before ++ line.tokens.flatMap Token.leaves ++ line.trail

def Lines.leaves (source : Lines) : List Leaf :=
  source.lines.flatMap Line.leaves ++ source.below.flatMap Blank.leaves

/-- The blanks in front of a line's first token are its margin, and no gap. -/
structure Line.IsTight (line : Line) : Prop where
  tokens : ∀ token ∈ line.tokens, token.isTight = true
  first : ∀ token ∈ line.tokens.head?, token.gap = []

theorem splitFooter_append (margin : Chars) (blanks : List Blank) :
    (splitFooter margin blanks).1 ++ (splitFooter margin blanks).2 = blanks := by
  simp [splitFooter]

theorem splitFooter_suffix (margin : Chars) (blanks : List Blank) :
    (splitFooter margin blanks).2 <:+ blanks :=
  ⟨_, splitFooter_append margin blanks⟩

end Source

namespace Grammar

open Source Script Reader

/-- The leaves written so far and those of the lines still to come make up a whole. -/
structure Rest (whole : Lines) (done : List Leaf) (source : Lines) : Prop where
  tight : ∀ line ∈ source.lines, line.IsTight
  split : whole.leaves = done ++ source.leaves
  -- Footers of blocks are taken from the front.
  below : source.below <:+ whole.below

/-- A script writes what it passes. -/
def Writes {A : Type} (script : Script A) (leaves : A → List Leaf) : Prop :=
  ∀ whole done, Keeps (Rest whole done) script fun result => Rest whole (done ++ leaves result)

namespace Writes

variable {A B : Type} {leaves : A → List Leaf} {whole : Lines} {done : List Leaf} {Q : B → Lines → Prop}

theorem bind {first : Script A} {next : A → Script B} (head : Writes first leaves)
    (tail : ∀ result, Keeps (Rest whole (done ++ leaves result)) (next result) Q) :
    Keeps (Rest whole done) (first >>= next) Q :=
  Keeps.bind (head whole done) tail

theorem bindOr {condition : Prop} [Decidable condition] {first : Script A} {other : A}
    {next : A → Script B} (head : Writes first leaves) (empty : leaves other = [])
    (tail : ∀ result, Keeps (Rest whole (done ++ leaves result)) (next result) Q) :
    Keeps (Rest whole done) (if condition then first >>= next else pure other >>= next) Q :=
  Keeps.bindOr (F := Rest whole) (head whole done) empty tail

end Writes

theorem Keeps.written {A : Type} {leaves : A → List Leaf} {whole : Lines} {done before : List Leaf} {result : A}
    (same : before = done ++ leaves result) :
    Keeps (Rest whole before) (Pure.pure result : Script A) fun result =>
      Rest whole (done ++ leaves result) :=
  .pure fun _ h => by rw [← same]; exact h

theorem takeFooter_writes (margin : Chars) : Writes (takeFooter margin) id := by
  intro whole done source footer rest before run
  have split (blanks : List Blank) : blanks.flatMap Blank.leaves =
      (splitFooter margin blanks).1.flatMap Blank.leaves ++
        (splitFooter margin blanks).2.flatMap Blank.leaves := by
    rw [← List.flatMap_append, splitFooter_append]
  rcases source with ⟨lines, below⟩
  cases lines with
  | nil =>
    cases run
    refine ⟨before.tight, ?_, (splitFooter_suffix margin below).trans before.below⟩
    simpa [Lines.leaves, split below, splitFooter] using before.split
  | cons line lines =>
    -- The footer of the block is taken from above the next line.
    cases run
    refine ⟨?_, ?_, before.below⟩
    · have each := before.tight
      rw [List.forall_mem_cons] at each ⊢
      exact ⟨⟨each.1.tokens, each.1.first⟩, each.2⟩
    · simpa [Lines.leaves, Line.leaves, Line.before, split line.above, splitFooter] using before.split

theorem next_keeps {whole : Lines} {done : List Leaf} : Keeps (Rest whole done) Script.next fun line source =>
    line.IsTight ∧ Rest whole (done ++ line.leaves) source := by
  intro source line rest before run
  rcases source with ⟨lines, below⟩
  cases lines with
  | nil => cases run
  | cons first lines =>
    cases run
    have each := before.tight
    rw [List.forall_mem_cons] at each
    exact ⟨each.1, each.2, by simpa [Lines.leaves] using before.split, before.below⟩

theorem view_start {line : Line} (tight : line.IsTight) (start : Side) :
    start.view line.tokens = line.tokens.flatMap Token.leaves := by
  cases start with
  | outside => rfl
  | inside =>
    cases here : line.tokens with
    | nil => rfl
    | cons token rest =>
      -- The blanks in front of it are the margin, which belongs to the line.
      have first : token.gap = [] := tight.first token (by simp [here])
      simp [Side.view, Token.leaves, first]

/-- A header has been read from its line; what is left of the line comes next. -/
structure Headed (whole : Lines) (done : List Leaf) (header : Header) (source : Lines) : Prop where
  rest : ∀ token ∈ header.rest, token.isTight = true
  split : Rest whole (done ++ header.line.before ++ Node.leaves.leavesAll header.parts ++
    header.rest.flatMap Token.leaves ++ header.line.trail) source

/-- A reader of a header, whatever the rules. -/
def ReadsHeader (reader : Rules → Reader (List Node)) : Prop :=
  ∃ start, ∀ rules, Lossless rules →
    Reads start (reader rules) Node.leaves.leavesAll fun _ => .outside

theorem header_keeps {reader : Rules → Reader (List Node)} (each : ReadsHeader reader)
    {whole : Lines} {done : List Leaf} : Keeps (Rest whole done) (header reader) (Headed whole done) := by
  rcases each with ⟨start, each⟩
  refine next_keeps.bind fun line => Keeps.bind (Q := fun found source =>
    Headed whole done ⟨line, found.1, found.2⟩ source) (.ofOption fun found run source before => ?_)
      fun found => .pure fun _ h => h
  have after := each _ (rules_lossless _) _ [] line.tokens found.1 found.2 ⟨before.1.tokens, rfl⟩ run
  have same : line.tokens.flatMap Token.leaves =
      Node.leaves.leavesAll found.1 ++ found.2.flatMap Token.leaves := by
    rw [← view_start before.1 start]
    exact after.split
  exact ⟨after.tight, before.2.tight, by simpa [Line.leaves, same] using before.2.split, before.2.below⟩

theorem simpleLine_writes : Writes simpleLine Node.leaves := by
  refine fun whole done => next_keeps.bind fun line => Keeps.bind
    (Q := fun smalls source => Rest whole (done ++ (Node.plain .line
      (.glue line.before :: smalls ++ [.glue line.trail])).leaves) source)
    (.ofOption fun smalls read source before => ?_) fun smalls => .pure fun _ h => h
  have written := (smallStatements_reads (rules_lossless _) _).whole before.1.tokens read
  rw [view_start before.1] at written
  simpa [Line.leaves, written] using before.2

section

variable {statements : Nat → Script (List Node)}
  (good : ∀ depth, Writes (statements depth) Node.leaves.leavesAll)

include good

theorem suite_keeps {whole : Lines} {done : List Leaf} (header : Header) :
    Keeps (Headed whole done header) (suite statements header) fun node =>
      Rest whole (done ++ header.line.before ++ Node.leaves.leavesAll header.parts ++ node.leaves) := by
  rcases header with ⟨line, parts, rest⟩
  cases rest with
  | nil =>
    refine .look (fun _ => rfl) fun found => ?_
    cases found with
    | none => exact .failure
    | some first =>
      refine .ite (fun _ => .pre (fun _ h => h.split) ?_) fun _ => .failure
      exact (good _).bind fun body => (takeFooter_writes _).bind fun footer => .written (by simp)
  | cons token rest =>
    refine Keeps.bind (Q := fun smalls source => Rest whole (done ++ line.before ++
      Node.leaves.leavesAll parts ++ (Node.plain .suite
        (.glue token.gap :: smalls ++ [.glue line.trail])).leaves) source)
      (.ofOption fun smalls read source before => ?_) fun smalls => .pure fun _ h => h
    have written := (smallStatements_reads (rules_lossless _) _).whole before.rest read
    simpa [Token.leaves, ← written, Side.view] using before.split

theorem clause_writes {reader : Rules → Reader (List Node)} (each : ReadsHeader reader) :
    Writes (clause statements reader) Node.leaves :=
  fun _ _ => (header_keeps each).bind fun header => (suite_keeps good header).bind fun _ =>
    .written (by simp)

omit good in
theorem wordClause_reads (word : String) : ReadsHeader (wordClause word) :=
  ⟨.inside, fun _ _ _ _ => (word_reads word).bind fun _ => (mark_reads ":").bind fun _ =>
    .wrote (by simp) rfl⟩

theorem otherwise_writes (depth : Nat) : Writes (otherwise statements depth) Node.leaves :=
  fun _ _ => .test (fun _ => rfl) (clause_writes good (wordClause_reads "else") _ _)
    (.written (by simp))

omit good in
theorem testClause_reads (word : String) : ReadsHeader (testClause word) :=
  ⟨.inside, fun _ rules _ _ => (opening_reads word).bind fun _ => (named_reads rules).bind fun _ =>
    (mark_reads ":").bind fun _ => .wrote (by simp) rfl⟩

theorem elifs_writes (depth fuel : Nat) :
    Writes (elifs statements depth fuel) Node.leaves.leavesAll := by
  induction fuel with
  | zero => exact fun _ _ => .failure
  | succ fuel ih =>
    exact fun _ _ => .test (fun _ => rfl) ((clause_writes good (testClause_reads "elif")).bind
      fun _ => ih.bind fun _ => .written (by simp)) (.written (by simp))

theorem ifChain_writes (depth : Nat) : Writes (ifChain statements depth) Node.leaves :=
  fun _ _ => (clause_writes good (testClause_reads "if")).bind fun _ => .look (fun _ => rfl) fun _ =>
    (elifs_writes good depth _).bind fun _ => (otherwise_writes good depth).bind fun _ =>
      .written (by simp)

theorem whileLoop_writes (depth : Nat) : Writes (whileLoop statements depth) Node.leaves :=
  fun _ _ => (clause_writes good (testClause_reads "while")).bind fun _ =>
    (otherwise_writes good depth).bind fun _ => .written (by simp)

omit good in
theorem asyncWord_reads (word : String) : Reads .inside (asyncWord word) id fun _ => .inside :=
  fun _ _ => .look (fun _ => rfl) fun _ => (opening_reads "async").bindOr rfl fun _ =>
    (opening_reads word).bind fun _ => .wrote (by simp) rfl

theorem forLoop_writes (depth : Nat) : Writes (forLoop statements depth) Node.leaves := by
  intro whole done
  refine Keeps.bind (header_keeps ⟨.inside, fun _ rules _ _ => ?_⟩) fun header =>
    (suite_keeps good header).bind fun _ => (otherwise_writes good depth).bind fun _ =>
      .written (by simp)
  exact (asyncWord_reads "for").bind fun _ => (starTargets_reads rules).bind fun _ =>
    (sign_reads "in").bind fun _ => (starExpressions_reads rules).bind fun _ =>
      (mark_reads ":").bind fun _ => .wrote (by simp) rfl

omit good in
theorem withItem_reads {rules : Rules} (lossless : Lossless rules) {comma : Reader (List Leaf)}
    (after : Reads .outside comma id fun _ => .inside) :
    Reads .inside (withItem rules comma) Node.leaves fun _ => .inside :=
  fun _ _ => (lossless.reads .expression).bind fun _ =>
    (binderAs_reads (starTarget_reads lossless)).bind fun _ => after.bind fun _ =>
      .wrote (by simp) rfl

omit good in
theorem withItems_reads {rules : Rules} (lossless : Lossless rules) (close : String)
    (trailing : Bool) (fuel : Nat) :
    Reads .inside (withItems rules close trailing fuel) Node.leaves.leavesAll fun _ => .inside := by
  have comma : Reads .outside (do if ← atWord "," then sign "," else gap) id fun _ => .inside :=
    fun _ _ => .test (fun _ => rfl) (sign_reads "," _ _) (gap_reads _ _)
  induction fuel with
  | zero => exact fun _ _ => .failure
  | succ fuel ih =>
    refine fun whole done => (withItem_reads lossless comma).bind fun item => .test (fun _ => rfl)
      (.ite (fun _ => .wrote (by simp) rfl) fun _ => .failure)
      (.ite (fun _ => ih.bind fun _ => .wrote (by simp) rfl) fun _ => .failure)

omit good in
theorem withHeader_reads : ReadsHeader withHeader := by
  refine ⟨.inside, fun rules lossless whole done => (asyncWord_reads "with").bind fun words =>
    .look (fun _ => rfl) fun _ => .orElse ?_ ?_⟩
  · exact (opening_reads "(").bind fun _ => (withItems_reads lossless ")" true _).bind fun _ =>
      (word_reads ")").bind fun _ => (mark_reads ":").bind fun _ => .wrote (by simp) rfl
  · exact (withItems_reads lossless ":" false _).bind fun _ => (word_reads ":").bind fun _ =>
      .wrote (by simp) rfl

theorem withBlock_writes : Writes (withBlock statements) Node.leaves :=
  clause_writes good withHeader_reads

omit good in
theorem handlerHeader_reads (group : Bool) : ReadsHeader (handlerHeader group) := by
  refine ⟨.outside, fun rules lossless whole done => ?_⟩
  -- With a star or without one, the rest of the header is read alike.
  have rest (word : List Leaf) {start : List Leaf} (same : start = done ++ word) :
      Keeps (At whole .outside start) (do
        if (← atWord ":") && !group then return [.glue (word ++ (← mark ":"))]
        else
          let gap ← gap
          let caught ← itemsOrTuple (rules .expression)
          let binder ← if caught.isA .tuple && caught.parens.opening.isEmpty then pure .absent
            else binderAs name
          return [.glue (word ++ gap), caught, binder, .glue (← mark ":")]) fun nodes =>
            At whole .outside (done ++ Node.leaves.leavesAll nodes) := by
    subst same
    refine .look (fun _ => rfl) fun _ => .ite (fun _ => (mark_reads ":").bind fun _ =>
      .wrote (by simp) rfl) fun _ => gap_reads.bind fun _ =>
        (itemsOrTuple_reads (lossless.reads .expression)).bind fun caught => .ite (fun _ => ?_) fun _ => ?_
    · exact .pureBind ((mark_reads ":").bind fun _ => .wrote (by simp) rfl)
    · exact (binderAs_reads name_reads).bind fun _ => (mark_reads ":").bind fun _ =>
        .wrote (by simp) rfl
  refine (mark_reads "except").bind fun word => .ite (fun _ => ?_) fun _ => .pureBind (rest word rfl)
  exact (mark_reads "*").bind fun star => .pureBind (rest (word ++ star) (by simp))

omit good in
theorem atGroup_keeps {P : Lines → Prop} : Keeps P atGroup fun _ => P := by
  refine .look (fun _ => rfl) fun found => ?_
  cases found with
  | none => exact .pure fun _ h => h
  | some line => exact .pure fun _ h => h

theorem handlers_writes (depth : Nat) (group : Bool) (fuel : Nat) :
    Writes (handlers statements depth group fuel) Node.leaves.leavesAll := by
  induction fuel with
  | zero => exact fun _ _ => .failure
  | succ fuel ih =>
    exact fun _ _ => .test (fun _ => rfl) (.bind atGroup_keeps fun _ => .ite (fun _ =>
      (clause_writes good (handlerHeader_reads group)).bind fun _ => ih.bind fun _ =>
        .written (by simp)) fun _ => .failure) (.written (by simp))

theorem tryBlock_writes (depth : Nat) : Writes (tryBlock statements depth) Node.leaves := by
  refine fun whole done => Keeps.bind (header_keeps (wordClause_reads "try")) fun header =>
    (suite_keeps good header).bind fun body => .bind atGroup_keeps fun group =>
    .look (fun _ => rfl) fun _ => (handlers_writes good depth group _).bind fun handlers => ?_
  -- The last clause is read alike, whether an alternative stands before it or not.
  have rest (other : Node) {start : List Leaf} (same : start = done ++ (header.line.before ++
      Node.leaves.leavesAll header.parts ++ body.leaves ++ Node.leaves.leavesAll handlers ++
      other.leaves)) : Keeps (Rest whole start) (do
        let last ← if ← atWords depth ["finally"] then
            clause statements (wordClause "finally")
          else pure .absent
        if handlers.isEmpty && last.isAbsent then failure
        else
          let kind := if group && !handlers.isEmpty then Kind.tryGroup else Kind.tryBlock
          return Node.plain kind
            (.glue header.line.before :: header.parts ++ body :: handlers ++ [other, last]))
        fun node => Rest whole (done ++ node.leaves) :=
    .look (fun _ => rfl) fun _ => (clause_writes good (wordClause_reads "finally")).bindOr
      Node.leaves_absent fun _ => .ite (fun _ => .failure) fun _ => .written (by simp [same])
  refine .ite (fun _ => .pureBind (rest .absent (by simp))) fun _ => ?_
  exact (otherwise_writes good depth).bind fun other => rest other (by simp)

omit good in
theorem caseHeader_reads : ReadsHeader caseHeader := by
  refine ⟨.inside, fun rules lossless whole done => (opening_reads "case").bind fun word =>
    (casePatterns_reads lossless).bind fun pattern => .look (fun _ => rfl) fun _ => ?_⟩
  have guarded : Reads .outside (do
      let word ← sign "if"
      return [.glue word, ← named rules]) Node.leaves.leavesAll fun _ => .outside :=
    fun _ _ => (sign_reads "if").bind fun _ => (named_reads lossless).bind fun _ =>
      .wrote (by simp) rfl
  exact guarded.bindOr rfl fun _ => (mark_reads ":").bind fun _ => .wrote (by simp) rfl

theorem cases_writes (depth fuel : Nat) :
    Writes (cases statements depth fuel) Node.leaves.leavesAll := by
  induction fuel with
  | zero => exact fun _ _ => .failure
  | succ fuel ih =>
    exact fun _ _ => .test (fun _ => rfl) ((clause_writes good caseHeader_reads).bind fun _ =>
      ih.bind fun _ => .written (by simp)) (.written (by simp))

omit good in
theorem subject_reads {rules : Rules} (lossless : Lossless rules) : ReadsNode (subject rules) := by
  have item := starOr_reads lossless (named_reads lossless)
  refine fun whole done => item.bind fun first => (moreItems_reads item).bind fun others =>
    .ite (fun none => ?_) fun _ => .wrote (by simp) rfl
  rw [List.isEmpty_iff] at none
  exact .ite (fun _ => .failure) fun _ => .wrote (by simp [none]) rfl

theorem matchBlock_writes (depth : Nat) : Writes (matchBlock statements depth) Node.leaves := by
  refine fun whole done => Keeps.bind (header_keeps ⟨.inside, fun _ rules _ _ => ?_⟩) fun header =>
    .look (fun _ => rfl) fun found => ?_
  · exact (opening_reads "match").bind fun _ => (subject_reads rules).bind fun _ =>
      (mark_reads ":").bind fun _ => .wrote (by simp) rfl
  rcases header with ⟨line, parts, rest⟩
  cases rest with
  | cons token rest => exact .failure
  | nil =>
    cases found with
    | none => exact .failure
    | some first =>
      refine .ite (fun _ => .look (fun _ => rfl) fun _ => .pre (fun _ h => h.split) ?_) fun _ => .failure
      exact (cases_writes good first.depth _).bind fun _ => .look (fun _ => rfl) fun _ =>
        .ite (fun _ => .failure) fun _ => (takeFooter_writes _).bind fun _ => .written (by simp)

omit good in
theorem returns_reads {rules : Rules} (lossless : Lossless rules) :
    Reads .outside (returns rules) Node.leaves fun _ => .outside :=
  fun _ _ => .test (fun _ => rfl) ((sign_reads "->").bind fun _ =>
    (lossless.reads .expression).bind fun _ => .wrote (by simp) rfl) (.wrote (by simp) rfl)

theorem function_writes {whole : Lines} {done : List Leaf} (decorators : List Node) :
    Keeps (Rest whole (done ++ Node.leaves.leavesAll decorators)) (function statements decorators)
      fun node => Rest whole (done ++ node.leaves) := by
  refine Keeps.bind (header_keeps ⟨.inside, fun _ rules _ _ => ?_⟩) fun header =>
    (suite_keeps good header).bind fun _ => .written (by simp [decorated])
  exact (asyncWord_reads "def").bind fun _ => name_reads.bind fun _ =>
    (typeParameters_reads rules).bind fun _ => (sign_reads "(").bind fun _ =>
    (parameters_reads rules ")").bind fun _ => (word_reads ")").bind fun _ =>
    (returns_reads rules).bind fun _ => (mark_reads ":").bind fun _ => .wrote (by simp) rfl

theorem classDef_writes {whole : Lines} {done : List Leaf} (decorators : List Node) :
    Keeps (Rest whole (done ++ Node.leaves.leavesAll decorators)) (classDef statements decorators)
      fun node => Rest whole (done ++ node.leaves) := by
  refine Keeps.bind (header_keeps ⟨.inside, fun rules lossless _ _ => ?_⟩) fun header =>
    (suite_keeps good header).bind fun _ => .written (by simp [decorated])
  have bases : Reads .outside (do
      let before ← sign "("
      let arguments ← argumentsFrom rules ((← get).length + 1) false .positional
      return [.glue before, .plain .arguments arguments, .glue (← Reader.word ")")])
      Node.leaves.leavesAll fun _ => .outside :=
    fun _ _ => (sign_reads "(").bind fun _ => .look (fun _ => rfl) fun _ =>
      (argumentsFrom_reads lossless _ false .positional).bind fun _ => (word_reads ")").bind fun _ =>
        .wrote (by simp) rfl
  exact (opening_reads "class").bind fun _ => name_reads.bind fun _ =>
    (typeParameters_reads lossless).bind fun _ => .look (fun _ => rfl) fun _ =>
    bases.bindOr (by simp) fun _ => (mark_reads ":").bind fun _ => .wrote (by simp) rfl

omit good in
theorem decoratorLines_writes (depth fuel : Nat) :
    Writes (decoratorLines depth fuel) Node.leaves.leavesAll := by
  induction fuel with
  | zero => exact fun _ _ => .failure
  | succ fuel ih =>
    intro whole done
    refine .test (fun _ => rfl) (next_keeps.bind fun line => Keeps.bind
      (Q := fun parts source => Rest whole (done ++ (line.before ++ Node.leaves.leavesAll parts ++
        line.trail)) source) (.ofOption fun parts read source before => ?_) fun parts => ?_)
      (.written (by simp))
    · have decorator : Reads .inside (do
          let sign ← opening "@"
          return [.glue sign, ← named (rulesFor line)]) Node.leaves.leavesAll fun _ => .outside :=
        fun _ _ => (opening_reads "@").bind fun _ => (named_reads (rules_lossless _)).bind fun _ =>
          .wrote (by simp) rfl
      have written := decorator.whole before.1.tokens read
      rw [view_start before.1] at written
      simpa [Line.leaves, written] using before.2
    · exact ih.bind fun _ => .written (by simp)

theorem definition_writes {whole : Lines} {done : List Leaf} (depth : Nat) (decorators : List Node) :
    Keeps (Rest whole (done ++ Node.leaves.leavesAll decorators))
      (definition statements depth decorators) fun node => Rest whole (done ++ node.leaves) :=
  .test (fun _ => rfl) (function_writes good decorators) <|
    .test (fun _ => rfl) (classDef_writes good decorators) .failure

theorem statement_writes (depth : Nat) : Writes (statement statements depth) Node.leaves := by
  intro whole done
  have bare := @function_writes statements good whole done []
  have plain := @definition_writes statements good whole done depth []
  rw [Node.leavesAll_nil, List.append_nil] at bare plain
  have async : Keeps (Rest whole done) (asyncStatement statements depth) fun node =>
      Rest whole (done ++ node.leaves) :=
    .look (fun _ => rfl) fun _ => .ite (fun _ => bare) fun _ =>
      .ite (fun _ => forLoop_writes good depth _ _) fun _ =>
      .ite (fun _ => withBlock_writes good _ _) fun _ => .failure
  refine .test (fun _ => rfl) (ifChain_writes good depth _ _) <|
    .test (fun _ => rfl) (whileLoop_writes good depth _ _) <|
    .test (fun _ => rfl) (forLoop_writes good depth _ _) <|
    .test (fun _ => rfl) (withBlock_writes good _ _) <|
    .test (fun _ => rfl) (tryBlock_writes good depth _ _) <|
    .test (fun _ => rfl) plain <|
    .test (fun _ => rfl) async <|
    .test (fun _ => rfl) (.look (fun _ => rfl) fun _ => ?_) <|
    .test (fun _ => rfl) (.orElse (matchBlock_writes good depth _ _) (simpleLine_writes _ _)) <|
      simpleLine_writes _ _
  exact (decoratorLines_writes depth _).bind fun decorators => definition_writes good depth decorators

end

theorem statements_writes (fuel depth : Nat) :
    Writes (Grammar.statements fuel depth) Node.leaves.leavesAll := by
  induction fuel generalizing depth with
  | zero => exact fun _ _ => .failure
  | succ fuel ih =>
    -- The statements of inner blocks are read with less fuel.
    intro whole done
    refine .look (fun _ => rfl) fun found => ?_
    cases found with
    | none => exact .written (by simp)
    | some line =>
      exact .ite (fun _ => .written (by simp)) fun _ => .ite (fun _ =>
        (statement_writes ih depth).bind fun _ => (ih depth).bind fun _ => .written (by simp))
          fun _ => .failure

end Grammar

end Graft
