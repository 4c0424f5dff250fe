import Graft.Proofs.Lossless.Expression

set_option autoImplicit false

/-!
Calls, subscripts, operators and lambdas lose nothing, if the rules below them do not.
-/
namespace Graft.Grammar

open Reader

section

variable {rules : Rules} (good : Lossless rules)

include good

omit good in
theorem argumentHead_reads (phase : Phase) :
    Reads .inside (argumentHead phase) (fun head => head.star ++ head.keyword.leaves)
      fun _ => .inside := by
  refine fun whole done => .test (fun _ => rfl) (.ite (fun _ => .failure) fun _ => ?_) <|
    .test (fun _ => rfl) ?_ <| .look (fun _ => rfl) fun _ => .look (fun _ => rfl) fun _ =>
      .ite (fun _ => ?_) fun _ => .ite (fun _ => .wrote (by simp) rfl) fun _ => .failure
  · exact (opening_reads "*").bind fun _ => .wrote (by simp) rfl
  · exact (opening_reads "**").bind fun _ => .wrote (by simp) rfl
  · exact name_reads.bind fun _ => (sign_reads "=").bind fun _ => .wrote (by simp) rfl

theorem argumentValue_reads (head : ArgumentHead) : ReadsNode (argumentValue rules head) :=
  fun _ _ => .ite (fun _ => named_reads good _ _) fun _ => good.reads .expression _ _

theorem argumentsFrom_reads (fuel : Nat) (sole : Bool) (phase : Phase) :
    Reads .inside (argumentsFrom rules fuel sole phase) Node.leaves.leavesAll fun _ => .inside := by
  induction fuel generalizing sole phase with
  | zero => exact fun _ _ => .failure
  | succ fuel ih =>
    intro whole done
    refine .test (fun _ => rfl) (.wrote (by simp) rfl) <| (argumentHead_reads phase).bind fun head =>
      (argumentValue_reads good head).bind fun value => .test (fun _ => rfl) ?_ ?_
    · exact (sign_reads ",").bind fun _ => (ih false head.phase).bind fun _ =>
        .wrote (by simp [argumentNode]) rfl
    -- The gap before the parenthesis is the argument's, which may have become a generator.
    have last (value : Node) : Keeps (At whole .outside (done ++ (head.star ++ head.keyword.leaves) ++
        value.leaves)) (do
          let gap ← gap
          if ← atWord ")" then return [argumentNode head value [] gap] else failure) fun nodes =>
            At whole .inside (done ++ Node.leaves.leavesAll nodes) :=
      gap_reads.bind fun _ => .test (fun _ => rfl) (.wrote (by simp [argumentNode]) rfl) .failure
    refine .look (fun _ => rfl) fun _ => .ite (fun _ => ?_) fun _ => ?_
    · have closing : Reads .outside (pure []) id fun _ => .outside :=
        fun _ _ => .wrote (by simp) rfl
      exact (comprehension_reads good closing (by simp)).bind last
    · exact .pureBind (last value)

theorem arguments_reads :
    Reads .inside (arguments rules) Node.leaves.leavesAll fun _ => .inside :=
  fun _ _ => .look (fun _ => rfl) fun _ => argumentsFrom_reads good _ _ _ _ _

variable {whole done : List Leaf} (base : Node)

theorem callArguments_reads : Keeps (At whole .outside (done ++ base.leaves))
    (callArguments rules base) fun node => At whole .outside (done ++ node.leaves) :=
  (sign_reads "(").bind fun _ => (arguments_reads good).bind fun _ => (word_reads ")").bind fun _ =>
    .wrote (by simp) rfl

theorem sliceBound_reads :
    Reads .outside (sliceBound rules) Node.leaves.leavesAll fun _ => .outside :=
  fun _ _ => .test (fun _ => rfl) (.wrote (by simp) rfl) <| gap_reads.bind fun _ =>
    (good.reads .expression).bind fun _ => .wrote (by simp) rfl

theorem sliceFrom_reads (lower : List Node) :
    Keeps (At whole (.past !lower.isEmpty) (done ++ Node.leaves.leavesAll lower))
      (sliceFrom rules lower) fun node => At whole .outside (done ++ node.leaves) := by
  have step : Reads .outside (do
      let second ← mark ":"
      return .glue second :: (← sliceBound rules)) Node.leaves.leavesAll fun _ => .outside :=
    fun _ _ => (mark_reads ":").bind fun _ => (sliceBound_reads good).bind fun _ =>
      .wrote (by simp) rfl
  have rest (first : List Leaf) :
      Keeps (At whole .outside (done ++ Node.leaves.leavesAll lower ++ first)) (do
        let upper ← sliceBound rules
        let step ← optional do
          let second ← mark ":"
          return .glue second :: (← sliceBound rules)
        return Node.plain .slice (lower ++ .glue first :: upper ++ step.getD [])) fun node =>
          At whole .outside (done ++ node.leaves) := by
    refine (sliceBound_reads good).bind fun upper => step.optional.bind fun step => .wrote ?_ rfl
    cases step <;> simp
  -- Without a lower bound the gap before the first colon has been read by the caller.
  refine .ite (fun empty => ?_) fun some => ?_
  · rw [empty]
    exact (word_reads ":").bind rest
  · rw [Bool.not_eq_true] at some
    rw [some]
    exact (mark_reads ":").bind rest

theorem sliceItem_reads : ReadsNode (sliceItem rules) := by
  refine fun whole done => .test (fun _ => rfl) ?_ <| .test (fun _ => rfl) ?_ <|
    (named_reads good).bind fun value => .test (fun _ => rfl) (.ite (fun _ => .failure) fun _ => ?_) <|
      .wrote rfl rfl
  · exact (opening_reads "*").bind fun _ => (good.reads .expression).bind fun _ =>
      .wrote (by simp) rfl
  · have bare := @sliceFrom_reads rules good whole done []
    simpa using bare
  · simpa using sliceFrom_reads good [value]

theorem subscriptItems_reads : Keeps (At whole .outside (done ++ base.leaves))
    (subscriptItems rules base) fun node => At whole .outside (done ++ node.leaves) :=
  (sign_reads "[").bind fun _ => (sliceItem_reads good).bind fun _ =>
    (moreItems_reads (sliceItem_reads good)).bind fun _ => (mark_reads "]").bind fun _ =>
      .wrote (by simp) rfl

omit good in
theorem attributeOf_reads : Keeps (At whole .outside (done ++ base.leaves)) (attributeOf base)
    fun node => At whole .outside (done ++ node.leaves) :=
  (sign_reads ".").bind fun _ => name_reads.bind fun _ => .wrote (by simp) rfl

theorem trailers_reads (fuel : Nat) : Keeps (At whole .outside (done ++ base.leaves))
    (trailers rules fuel base) fun node => At whole .outside (done ++ node.leaves) := by
  induction fuel generalizing base with
  | zero => exact .wrote rfl rfl
  | succ fuel ih =>
    exact .test (fun _ => rfl) ((attributeOf_reads base).bind ih) <|
      .test (fun _ => rfl) ((callArguments_reads good base).bind ih) <|
      .test (fun _ => rfl) ((subscriptItems_reads good base).bind ih) <| .wrote rfl rfl

theorem primary_reads : ReadsNode (primary rules) :=
  fun _ _ => (atom_reads good).bind fun base => .look (fun _ => rfl) fun _ =>
    trailers_reads good base _

theorem awaited_reads : ReadsNode (awaited rules) :=
  fun _ _ => .test (fun _ => rfl) ((opening_reads "await").bind fun _ =>
    (primary_reads good).bind fun _ => .wrote (by simp) rfl) (primary_reads good _ _)

theorem power_reads : ReadsNode (power rules) :=
  fun _ _ => (awaited_reads good).bind fun _ => .test (fun _ => rfl)
    ((sign_reads "**").bind fun _ => (good.reads .factor).bind fun _ => .wrote (by simp) rfl)
    (.wrote rfl rfl)

theorem factor_reads : ReadsNode (factor rules) :=
  fun _ _ => .test (fun _ => rfl) ((openingOf_reads ["+", "-", "~"]).bind fun _ =>
    (good.reads .factor).bind fun _ => .wrote (by simp) rfl) (power_reads good _ _)

omit good in
theorem operation_reads {operators : List String} {operand : Reader Node}
    (each : ReadsNode operand) : ReadsNode (operation operators operand) :=
  chain_reads (signOf_reads operators) each

theorem bitwiseOr_reads : ReadsNode (bitwiseOr rules) :=
  operation_reads <| operation_reads <| operation_reads <| operation_reads <|
    operation_reads <| operation_reads <| factor_reads good

omit good in
theorem comparator_reads : Reads .outside comparator id fun _ => .inside := by
  refine fun whole done => .test (fun _ => rfl) ?_ <| .test (fun _ => rfl) ?_ (signOf_reads _ _ _)
  · exact (mark_reads "not").bind fun _ => (sign_reads "in").bind fun _ => .wrote (by simp) rfl
  · exact (mark_reads "is").bind fun _ => .test (fun _ => rfl)
      ((sign_reads "not").bind fun _ => .wrote (by simp) rfl)
      (gap_reads.bind fun _ => .wrote (by simp) rfl)

theorem comparison_reads : ReadsNode (comparison rules) :=
  chain_reads comparator_reads (bitwiseOr_reads good)

theorem inversion_reads : ReadsNode (inversion rules) :=
  fun _ _ => .test (fun _ => rfl) ((opening_reads "not").bind fun _ =>
    (good.reads .inversion).bind fun _ => .wrote (by simp) rfl) (comparison_reads good _ _)

theorem disjunction_reads : ReadsNode (disjunction rules) :=
  operation_reads <| operation_reads <| inversion_reads good

omit good in
theorem commaOrEnd_reads (close : String) :
    Reads .outside (commaOrEnd close) (fun found => found.1) fun _ => .inside :=
  fun _ _ => .test (fun _ => rfl) ((sign_reads ",").bind fun _ => .wrote (by simp) rfl) <|
    .test (fun _ => rfl) (gap_reads.bind fun _ => .wrote (by simp) rfl) .failure

omit good in
theorem hintAfter_reads {reader : Reader Node} (each : ReadsNode reader) :
    Reads .outside (hintAfter reader) Node.leaves fun _ => .outside :=
  fun _ _ => (sign_reads ":").bind fun _ => each.bind fun _ => .wrote (by simp) rfl

omit good in
theorem defaultAfter_reads {reader : Reader Node} (each : ReadsNode reader) :
    Reads .outside (defaultAfter reader) Node.leaves fun _ => .outside :=
  fun _ _ => (sign_reads "=").bind fun _ => each.bind fun _ => .wrote (by simp) rfl

theorem parameter_reads {close : String} {stars : List Leaf} {hint : Reader Node}
    (each : ReadsNode hint) : Keeps (At whole .inside (done ++ stars))
      (parameter rules close stars hint) fun parameter =>
        At whole .inside (done ++ parameter.node.leaves) := by
  have hinted : Reads .outside (if close == ":" then pure .absent else hintAfter hint) Node.leaves
      fun _ => .outside :=
    fun whole done => .ite (fun _ => .wrote (by simp) rfl) fun _ => hintAfter_reads each whole done
  exact name_reads.bind fun name => .look (fun _ => rfl) fun _ =>
    hinted.bindOr Node.leaves_absent fun hint => .look (fun _ => rfl) fun _ =>
      (defaultAfter_reads (good.reads .expression)).bindOr Node.leaves_absent fun default =>
        (commaOrEnd_reads close).bind fun _ => .wrote (by simp) rfl

theorem parametersFrom_reads (close : String) (fuel : Nat) (stage : Stage) :
    Reads .inside (parametersFrom rules close fuel stage) Node.leaves.leavesAll fun _ => .inside := by
  induction fuel generalizing stage with
  | zero => exact fun _ _ => .failure
  | succ fuel ih =>
    intro whole done
    -- What follows a parameter is read by the induction; each kind of parameter only says how it is read
    -- itself.
    have follow (node : Node) (stage : Stage) : Keeps (At whole .inside (done ++ node.leaves))
        (do return node :: (← parametersFrom rules close fuel stage)) fun nodes =>
          At whole .inside (done ++ Node.leaves.leavesAll nodes) :=
      (ih stage).bind fun _ => .wrote (by simp) rfl
    have next (parameter : Parameter) (stage : Stage) :
        Keeps (At whole .inside (done ++ parameter.node.leaves)) (do
          if parameter.hasComma then
            return parameter.node :: (← parametersFrom rules close fuel stage)
          else return [parameter.node]) fun nodes =>
            At whole .inside (done ++ Node.leaves.leavesAll nodes) :=
      .ite (fun _ => follow parameter.node stage) fun _ => .wrote (by simp) rfl
    refine .test (fun _ => rfl) (.ite (fun _ => .failure) fun _ => .wrote (by simp) rfl) <|
      .test (fun _ => rfl) (.ite (fun _ => ?slash) fun _ => .failure) <|
      .test (fun _ => rfl) (.ite (fun _ => .failure) fun _ => ?mapping) <|
      .test (fun _ => rfl) (.ite (fun _ => .failure) fun _ => ?star) ?plain
    case slash =>
      refine (word_reads "/").bind fun slash => (commaOrEnd_reads close).bind fun comma => ?_
      refine .ite (fun _ => ?_) fun _ => .wrote (by simp) rfl
      simpa using follow (.glue (slash ++ comma.1)) _
    case mapping =>
      exact (opening_reads "**").bind fun stars =>
        (parameter_reads good (good.reads .expression)).bind fun last =>
          .ite (fun _ => .failure) fun _ => .test (fun _ => rfl) (.wrote (by simp) rfl) .failure
    case star =>
      refine (opening_reads "*").bind fun star => .test (fun _ => rfl) ?_ ?_
      · refine (word_reads ",").bind fun comma => gap_reads.bind fun after => ?_
        simpa using follow (.glue (star ++ comma ++ after)) _
      · exact (parameter_reads good (starOr_reads good (good.reads .expression))).bind fun rest =>
          .ite (fun _ => .failure) fun _ => next rest _
    case plain =>
      refine Keeps.bind ?_ fun parameter => .ite (fun _ => .failure) fun _ => next parameter _
      simpa using @parameter_reads rules good whole done close [] _ (good.reads .expression)

theorem parameters_reads (close : String) :
    Reads .inside (parameters rules close) Node.leaves fun _ => .inside :=
  fun _ _ => .look (fun _ => rfl) fun _ => (parametersFrom_reads good close _ _).bind fun _ =>
    .wrote (by simp) rfl

theorem lambda_reads : ReadsNode (lambda rules) :=
  fun _ _ => (opening_reads "lambda").bind fun _ => (parameters_reads good ":").bind fun _ =>
    (opening_reads ":").bind fun _ => (good.reads .expression).bind fun _ => .wrote (by simp) rfl

theorem expression_reads : ReadsNode (expression rules) :=
  fun _ _ => .test (fun _ => rfl) (lambda_reads good _ _) <| (disjunction_reads good).bind fun _ =>
    .test (fun _ => rfl) ((sign_reads "if").bind fun _ => (good.reads .disjunction).bind fun _ =>
      (sign_reads "else").bind fun _ => (good.reads .expression).bind fun _ => .wrote (by simp) rfl)
      (.wrote rfl rfl)

end

end Graft.Grammar
