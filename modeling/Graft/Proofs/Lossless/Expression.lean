import Graft.Proofs.Grammar.Expression
import Graft.Proofs.Lossless.Reader
import Graft.Proofs.Lossless.Solid

set_option autoImplicit false

/-!
The rules of expressions lose nothing, if the rules below them do not.
-/
namespace Graft.Grammar

open Reader

/-- A field begins before its gap, which is empty. -/
def Goal.start : Goal → Side
  | .field => .outside
  | _ => .inside

structure Lossless (rules : Rules) : Prop where
  reads : ∀ goal : Goal, Reads goal.start (rules goal) Node.leaves fun _ => .outside
  /-- Parentheses are written around expressions. -/
  solid : Solid (rules .expression)

section

variable {rules : Rules} (good : Lossless rules)

include good

theorem starred_reads : ReadsNode (starred rules) :=
  fun _ _ => (opening_reads "*").bind fun _ => (good.reads .bitwiseOr).bind fun _ =>
    .wrote (by simp) rfl

theorem named_reads : ReadsNode (named rules) := by
  intro whole done
  refine .look (fun _ => rfl) fun _ => .look (fun _ => rfl) fun _ => .ite (fun _ => ?_) fun _ => ?_
  · exact name_reads.bind fun _ => (sign_reads ":=").bind fun _ =>
      (good.reads .expression).bind fun _ => .wrote (by simp) rfl
  · exact good.reads .expression whole done

theorem starOr_reads {reader : Reader Node} (other : ReadsNode reader) :
    ReadsNode (starOr rules reader) :=
  fun _ _ => .test (fun _ => rfl) (starred_reads good _ _) (other _ _)

omit good in
theorem moreItems_reads {item : Reader Node} (each : ReadsNode item) :
    Reads .outside (moreItems item) Node.leaves.leavesAll fun _ => .outside := by
  intro whole done
  have more : Reads .outside (do let comma ← sign ","; return [.glue comma, ← item])
      Node.leaves.leavesAll fun _ => .outside :=
    fun _ _ => (sign_reads ",").bind fun _ => each.bind fun _ => .wrote (by simp) rfl
  refine more.many.bind fun others => (mark_reads ",").optional.bind fun last => .wrote ?_ rfl
  cases last with
  | none => simp
  | some comma => simp

omit good in
theorem itemsOrTuple_reads {item : Reader Node} (each : ReadsNode item) :
    ReadsNode (itemsOrTuple item) := by
  refine fun whole done => each.bind fun first => (moreItems_reads each).bind fun others => ?_
  refine .wrote ?_ rfl
  cases others with
  | nil => simp
  | cons => simp

theorem starExpressions_reads : ReadsNode (starExpressions rules) :=
  itemsOrTuple_reads (starOr_reads good (good.reads .expression))

theorem yielding_reads : ReadsNode (yielding rules) := by
  refine fun whole done => (word_reads "yield").bind fun word => .test (fun _ => rfl) ?_ ?_
  · exact (sign_reads "from").bind fun _ => (good.reads .expression).bind fun _ =>
      .wrote (by simp) rfl
  · have value : Reads .outside (do return (← gap, ← starExpressions rules))
        (fun found => found.1 ++ found.2.leaves) fun _ => .outside :=
      fun _ _ => gap_reads.bind fun _ => (starExpressions_reads good).bind fun _ =>
        .wrote (by simp) rfl
    refine value.optional.bind fun found => ?_
    cases found with
    | none => exact .wrote (by simp) rfl
    | some found => exact .wrote (by simp) rfl

theorem yieldOr_reads {reader : Reader Node} (other : ReadsNode reader) :
    ReadsNode (yieldOr rules reader) :=
  fun _ _ => .test (fun _ => rfl) (yielding_reads good _ _) (other _ _)

omit good in
theorem checked_reads {accept : Node → Bool} {reader : Reader Node} (each : ReadsNode reader) :
    ReadsNode (checked accept reader) :=
  fun _ _ => each.bind fun _ => .ite (fun _ => .wrote rfl rfl) fun _ => .failure

theorem starTarget_reads : ReadsNode (starTarget rules) := by
  refine checked_reads fun whole done => .test (fun _ => rfl) ?_ (good.reads .primary _ _)
  exact (opening_reads "*").bind fun _ => (good.reads .primary).bind fun _ => .wrote (by simp) rfl

theorem starTargets_reads : ReadsNode (starTargets rules) :=
  itemsOrTuple_reads (starTarget_reads good)

theorem condition_reads :
    Reads .outside (condition rules) Node.leaves.leavesAll fun _ => .outside :=
  fun _ _ => (sign_reads "if").bind fun _ => (good.reads .disjunction).bind fun _ =>
    .wrote (by simp) rfl

theorem clauseParts_reads :
    Reads .outside (clauseParts rules) Node.leaves.leavesAll fun _ => .outside := by
  intro whole done
  have rest (before async : List Leaf) : Keeps (At whole .outside (done ++ async)) (do
      let words ← sign "for"
      let target ← starTargets rules
      let word ← sign "in"
      let iterable ← rules .disjunction
      let conditions ← many (condition rules)
      return [.glue (async ++ words), target, .glue word, iterable,
        .plain .conditions conditions.flatten]) fun nodes =>
          At whole .outside (done ++ Node.leaves.leavesAll nodes) :=
    (sign_reads "for").bind fun _ => (starTargets_reads good).bind fun _ =>
      (sign_reads "in").bind fun _ => (good.reads .disjunction).bind fun _ =>
        (condition_reads good).many.bind fun _ => .wrote (by simp) rfl
  refine (mark_reads "async").optional.bind fun async => ?_
  cases async with
  | none => exact rest [] []
  | some async => exact rest [] async

omit good in
theorem nest_leaves (inner : List (List Node)) :
    (nest inner).leaves = inner.flatMap Node.leaves.leavesAll := by
  induction inner with
  | nil => rfl
  | cons parts inner ih => simp [nest, ih]

theorem clauses_reads : Reads .outside (clauses rules) Node.leaves.leavesAll fun _ => .outside :=
  fun _ _ => (clauseParts_reads good).bind fun _ => (clauseParts_reads good).many.bind fun _ =>
    .wrote (by simp [nest_leaves]) rfl

variable {whole done start before : List Leaf} {item : Node}

theorem comprehension_reads {kind : Kind} {after : Reader (List Leaf)}
    (closing : Reads .outside after id fun _ => .outside)
    (same : start = done ++ (before ++ item.leaves)) :
    Keeps (At whole .outside start) (comprehension rules kind before item after) fun node =>
      At whole .outside (done ++ node.leaves) :=
  (clauses_reads good).bind fun _ => closing.bind fun _ => .wrote (by simp [same]) rfl

omit good in
theorem bracketed_reads {kind : Kind} {reader : Reader Node} {close : String}
    (each : ReadsNode reader) (same : start = done ++ (before ++ item.leaves)) :
    Keeps (At whole .outside start) (bracketed kind before item reader close) fun node =>
      At whole .outside (done ++ node.leaves) :=
  (moreItems_reads each).bind fun _ => (mark_reads close).bind fun _ => .wrote (by simp [same]) rfl

omit good in
theorem wrapped_reads {value : Node} (solid : value.isLeaf = false)
    (same : start = done ++ (before ++ value.leaves)) :
    Keeps (At whole .outside start) (do return value.wrap before (← mark ")")) fun node =>
      At whole .outside (done ++ node.leaves) :=
  (mark_reads ")").bind fun _ => .wrote (by simp [same, Node.leaves_wrap solid]) rfl

theorem parenthesised_reads : ReadsNode (parenthesised rules) := by
  intro whole done
  have items := starOr_reads good (named_reads good)
  refine (opening_reads "(").bind fun before => .test (fun _ => rfl) ?_ <|
    .test (fun _ => rfl) ?_ <| items.bindOf (starOr_solid (named_solid good.solid)) fun first solid => ?_
  · exact (word_reads ")").bind fun _ => .wrote (by simp) rfl
  · exact (yielding_reads good).bindOf yielding_solid fun _ solid => wrapped_reads solid (by simp)
  refine .test (fun _ => rfl) (.ite (fun _ => .failure) fun _ => ?_) <|
    .test (fun _ => rfl) ?_ <| .ite (fun _ => .failure) fun _ => wrapped_reads solid (by simp)
  · have closing : Reads .outside (pure []) id fun _ => .outside :=
      fun _ _ => .wrote (by simp) rfl
    have alone : done ++ before ++ first.leaves =
        done ++ before ++ ([] ++ (Node.plain .item [first]).leaves) := by simp
    exact .bindOf comprehension_solid (comprehension_reads good closing alone) fun _ solid =>
      wrapped_reads solid (by simp)
  · exact (moreItems_reads items).bind fun _ => (mark_reads ")").bind fun _ => .wrote (by simp) rfl

theorem listDisplay_reads : ReadsNode (listDisplay rules) := by
  intro whole done
  have items := starOr_reads good (named_reads good)
  refine (opening_reads "[").bind fun before => .test (fun _ => rfl) ?_ <| items.bind fun first =>
    .test (fun _ => rfl) (.ite (fun _ => .failure) fun _ => ?_) ?_
  · exact (word_reads "]").bind fun _ => .wrote (by simp) rfl
  · exact comprehension_reads good (mark_reads "]") (by simp)
  · exact bracketed_reads items (by simp)

omit good in
theorem comma_reads :
    Reads .outside (do return (← optional (sign ",")).getD []) id fun comma =>
      .past comma.isEmpty := by
  intro whole done
  refine .bindOf (sign_yields ",").optional (sign_reads "," whole done).optional fun found some => ?_
  cases found with
  | none => exact .wrote (by simp) rfl
  | some comma => exact .wrote (by simp) (by simp [Side.past, some comma])

omit good in
theorem entryComma_reads :
    Reads .outside entryComma Node.leaves fun comma => .past comma.isAbsent := by
  intro whole done
  have glued : Reads .outside (do
      let comma ← (do return (← optional (sign ",")).getD [] : Reader (List Leaf))
      return Node.glue comma) Node.leaves fun comma => .past comma.isAbsent :=
    fun _ _ => comma_reads.bind fun _ => .wrote (by simp) (by simp)
  simpa [entryComma] using glued whole done

omit good in
theorem endsOpen_plain (kind : Kind) (parts : List Node) (last : Node) :
    endsOpen [.plain kind (parts ++ [last])] = last.isAbsent := by
  simp [endsOpen, Node.plain]

theorem spread_reads :
    Reads .inside (spread rules) Node.leaves fun entry => .past (endsOpen [entry]) :=
  fun _ _ => (opening_reads "**").bind fun stars => (good.reads .bitwiseOr).bind fun value =>
    entryComma_reads.bind fun comma => .wrote (by simp)
      (by rw [← endsOpen_plain .spread [.glue stars, value] comma]; rfl)

omit good in
theorem endsOpen_cons {entry : Node} (closed : endsOpen [entry] = false) (entries : List Node) :
    endsOpen (entry :: entries) = endsOpen entries := by
  cases entries with
  | nil => rw [closed]; rfl
  | cons next rest => simp [endsOpen]

theorem dictEntries_reads (fuel : Nat) :
    Reads .inside (dictEntries rules fuel) Node.leaves.leavesAll fun entries =>
      .past (endsOpen entries) := by
  induction fuel with
  | zero => exact fun _ _ => .failure
  | succ fuel ih =>
    intro whole done
    have rest (entry : Node) : Keeps (At whole (.past (endsOpen [entry])) (done ++ entry.leaves))
        (if endsOpen [entry] then return [entry] else
          do return entry :: (← dictEntries rules fuel)) fun entries =>
            At whole (.past (endsOpen entries)) (done ++ Node.leaves.leavesAll entries) := by
      refine .ite (fun _ => .wrote (by simp) rfl) fun closed => ?_
      rw [Bool.not_eq_true] at closed
      rw [closed]
      exact ih.bind fun entries => .wrote (by simp) (by rw [endsOpen_cons closed])
    refine .test (fun _ => rfl) (.wrote (by simp) rfl) <|
      .test (fun _ => rfl) ((spread_reads good).bind rest) ?_
    refine (good.reads .expression).bind fun key => (sign_reads ":").bind fun colon =>
      (good.reads .expression).bind fun value => entryComma_reads.bind fun comma => ?_
    have ends := endsOpen_plain .entry [key, .glue colon, value] comma
    have entry := rest (.plain .entry [key, .glue colon, value, comma])
    simpa [← ends] using entry

omit good in
theorem dictOf_reads {entries : List Node}
    (same : start = done ++ (before ++ Node.leaves.leavesAll entries)) :
    Keeps (At whole (.past (endsOpen entries)) start) (dictOf before entries) fun node =>
      At whole .outside (done ++ node.leaves) := by
  refine .ite (fun ends => ?_) fun closed => ?_
  · rw [ends]
    exact (mark_reads "\x7d").bind fun _ => .wrote (by simp [same]) rfl
  · rw [Bool.not_eq_true] at closed
    rw [closed]
    exact (word_reads "\x7d").bind fun _ => .wrote (by simp [same]) rfl

theorem restOfDict_reads :
    Reads .inside (restOfDict rules) Node.leaves.leavesAll fun entries => .past (endsOpen entries) :=
  fun _ _ => .look (fun _ => rfl) fun _ => dictEntries_reads good _ _ _

theorem setOf_reads (same : start = done ++ (before ++ item.leaves)) :
    Keeps (At whole .outside start) (braced.setOf rules before item) fun node =>
      At whole .outside (done ++ node.leaves) :=
  .test (fun _ => rfl) (comprehension_reads good (mark_reads "\x7d") (by simp [same]))
    (bracketed_reads (starOr_reads good (named_reads good)) same)

theorem braced_reads : ReadsNode (braced rules) := by
  intro whole done
  refine (opening_reads "\x7b").bind fun before => .look (fun _ => rfl) fun _ =>
    .look (fun _ => rfl) fun _ => .ite (fun _ => ?dict) fun _ => .test (fun _ => rfl) ?star <|
    (named_reads good).bind fun first => .ite (fun _ => setOf_reads good (by simp)) fun _ =>
      .test (fun _ => rfl) ?entry (setOf_reads good (by simp))
  case dict => exact (restOfDict_reads good).bind fun _ => dictOf_reads (by simp)
  case star =>
    exact (starred_reads good).bind fun _ =>
      bracketed_reads (starOr_reads good (named_reads good)) (by simp)
  refine (sign_reads ":").bind fun colon => (good.reads .expression).bind fun value =>
    .test (fun _ => rfl) (comprehension_reads good (mark_reads "\x7d") (by simp)) ?_
  refine entryComma_reads.bind fun comma => ?_
  have ends := endsOpen_plain .entry [first, .glue colon, value] comma
  refine .ite (fun missing => ?_) fun given => ?_
  · rw [← ends]
    exact dictOf_reads (by simp)
  · rw [Bool.not_eq_true] at given
    rw [given] at ends ⊢
    refine (restOfDict_reads good).bind fun others => ?_
    rw [← endsOpen_cons ends]
    exact dictOf_reads (by simp)

omit good in
theorem conversion_reads : Reads .outside conversion id fun _ => .outside :=
  fun _ _ => (sign_reads "!").bind fun _ => (sort?_reads .name).bind fun _ => .wrote (by simp) rfl

theorem literalPart_reads : Reads .outside (literalPart rules) Node.leaves fun _ => .outside :=
  fun _ _ => .test (fun _ => rfl)
    ((sort?_reads_tight (.inl rfl)).bind fun _ => .wrote (by simp) rfl) (good.reads .field _ _)

theorem field_reads : Reads .outside (field rules) Node.leaves fun _ => .outside := by
  intro whole done
  have format : Reads .outside (do
      let colon ← mark ":"
      return .glue colon :: (← many (literalPart rules))) Node.leaves.leavesAll fun _ => .outside :=
    fun _ _ => (mark_reads ":").bind fun _ => (literalPart_reads good).many.bind fun _ =>
      .wrote (by simp) rfl
  refine (sign_reads "\x7b").bind fun before =>
    (yieldOr_reads good (starExpressions_reads good)).bind fun value =>
    (mark_reads "=").optional.bind fun echo => conversion_reads.optional.bind fun convert =>
    format.optional.bind fun format => (mark_reads "\x7d").bind fun closing => .wrote ?_ rfl
  cases echo <;> cases convert <;> cases format <;> simp

theorem stringLiteral_reads : ReadsNode (stringLiteral rules) :=
  fun _ _ => .test (fun _ => rfl) ((sort?_reads .string).bind fun _ => .wrote (by simp) rfl) <|
    (sort?_reads .literalStart).bind fun _ => (literalPart_reads good).many.bind fun _ =>
      (sort?_reads_tight (.inr rfl)).bind fun _ => .wrote (by simp) rfl

omit good in
theorem joinStrings_leaves (first : Node) (others : List (List Leaf × Node)) :
    (joinStrings first others).leaves =
      first.leaves ++ others.flatMap fun other => other.1 ++ other.2.leaves := by
  induction others generalizing first with
  | nil => simp [joinStrings]
  | cons other rest ih => simp [joinStrings, ih]

theorem strings_reads : ReadsNode (strings rules) := by
  intro whole done
  have other : Reads .outside (do let gap ← gap; return (gap, ← stringLiteral rules))
      (fun other => other.1 ++ other.2.leaves) fun _ => .outside :=
    fun _ _ => gap_reads.bind fun _ => (stringLiteral_reads good).bind fun _ => .wrote (by simp) rfl
  exact (stringLiteral_reads good).bind fun _ => other.many.bind fun _ =>
    .wrote (by simp [joinStrings_leaves]) rfl

theorem atom_reads : ReadsNode (atom rules) :=
  fun whole done => .test (fun _ => rfl) (parenthesised_reads good _ _) <|
    .test (fun _ => rfl) (listDisplay_reads good _ _) <|
    .test (fun _ => rfl) (braced_reads good _ _) <|
    .test (fun _ => rfl) ((word_reads "...").bind fun _ => .wrote (by simp) rfl) <|
    .test (fun _ => rfl) ((sort?_reads .number).bind fun _ => .wrote (by simp) rfl) <|
    .look (fun _ => rfl) fun _ => .look (fun _ => rfl) fun _ =>
      .ite (fun _ => strings_reads good _ _) fun _ =>
        .orElse (constant_reads whole done) (name_reads whole done)

end

end Graft.Grammar
