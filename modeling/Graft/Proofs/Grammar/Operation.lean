import Graft.Proofs.Grammar.Arguments

set_option autoImplicit false

/-!
Attributes, calls and items, operations, parameters and lambdas give parts too.
-/
namespace Graft.Grammar

open Reader

theorem attributeOf_yields {base : Node} (part : base.Part) :
    Yields (attributeOf base) fun node => node.Part ∧ (base.isDotted = true → node.isDotted = true) := by
  refine .step fun dot => .bind name_yields fun name field => .pure ⟨?_, fun dotted => ?_⟩
  next => exact .plain rfl (by simp [part, field.1])
  next =>
    cases name with
    | name parens id => simpa [Node.isDotted, Node.plain] using ⟨dotted, rfl⟩
    | leaf _ => exact absurd field.2 (by simp [Node.isName])
    | branch _ _ _ => exact absurd field.2 (by simp [Node.isName])

section

variable {rules : Rules} (good : ∀ goal, Yields (rules goal) Node.Part)

include good

theorem sliceBound_yields : Yields (sliceBound rules) fun nodes => ∀ node ∈ nodes, node.Part :=
  .step fun _ => .ite (fun _ => .pure (by simp)) fun _ => .step fun _ => .bind (good _) fun _ part =>
    .pure (by simp [part])

theorem sliceFrom_yields {lower : List Node} (parts : ∀ node ∈ lower, node.Part) :
    Yields (sliceFrom rules lower) Node.Part := by
  have rest (first : List Leaf) : Yields (do
      let upper ← sliceBound rules
      let step ← optional do
        let second ← mark ":"
        return .glue second :: (← sliceBound rules)
      return .plain .slice (lower ++ .glue first :: upper ++ step.getD [])) Node.Part := by
    refine .bind (sliceBound_yields good) fun upper above => .bind (.optional
      (P := fun nodes => ∀ node ∈ nodes, node.Part) (.step fun _ => .bind (sliceBound_yields good)
        fun _ steps => .pure (by simpa using steps))) fun step steps => .pure (.plain rfl ?_)
    cases step with
    | none => simpa [or_imp, forall_and] using ⟨parts, above⟩
    | some nodes => simpa [or_imp, forall_and] using ⟨parts, above, steps nodes rfl⟩
  exact .ite (fun _ => .step rest) fun _ => .step rest

theorem sliceItem_yields : Yields (sliceItem rules) Node.Part := by
  refine .step fun _ => .ite (fun _ => ?_) fun _ => .step fun _ =>
    .ite (fun _ => sliceFrom_yields good (by simp)) fun _ => .bind (named_yields good) fun _ part =>
      .step fun _ => .ite (fun _ => .ite (fun _ => .failure) fun _ =>
        sliceFrom_yields good (by simp [part])) fun _ => .pure part
  exact .step fun _ => .bind (good _) fun _ part => .pure (.plain rfl (by simp [part]))

theorem subscriptItems_yields {base : Node} (part : base.Part) :
    Yields (subscriptItems rules base) Node.Part := by
  refine .step fun _ => .bind (sliceItem_yields good) fun first head =>
    .bind (moreItems_yields (sliceItem_yields good)) fun others tail => .step fun _ =>
      .pure (.plain rfl ?_)
  have items : (Node.plain .items (first :: others)).Part :=
    .plain rfl (by simpa [head] using tail)
  simp [part, items]

theorem trailers_yields (fuel : Nat) {base : Node} (part : base.Part) :
    Yields (trailers rules fuel base) Node.Part := by
  induction fuel generalizing base with
  | zero => exact .pure part
  | succ fuel ih =>
    refine .step fun _ => .ite (fun _ => .bind (attributeOf_yields part) fun _ h => ih h.1) fun _ =>
      .step fun _ => .ite (fun _ => .bind (callArguments_yields good part) fun _ h => ih h) fun _ =>
        .step fun _ => .ite (fun _ => .bind (subscriptItems_yields good part) fun _ h => ih h)
          fun _ => .pure part

theorem primary_yields : Yields (primary rules) Node.Part :=
  .bind (atom_yields good) fun _ part => .step fun _ => trailers_yields good _ part

theorem awaited_yields : Yields (awaited rules) Node.Part := by
  refine .step fun _ => .ite (fun _ => .step fun _ => ?_) fun _ => primary_yields good
  exact .bind (primary_yields good) fun _ part => .pure (.plain rfl (by simp [part]))

theorem power_yields : Yields (power rules) Node.Part := by
  refine .bind (awaited_yields good) fun base part => .step fun _ => .ite (fun _ => .step fun _ => ?_)
    fun _ => .pure part
  exact .bind (good _) fun _ exponent => .pure (.plain rfl (by simp [part, exponent]))

theorem factor_yields : Yields (factor rules) Node.Part := by
  refine .step fun _ => .ite (fun _ => .step fun _ => ?_) fun _ => power_yields good
  exact .bind (good _) fun _ part => .pure (.plain rfl (by simp [part]))

omit good in
theorem operation_yields {operators : List String} {operand : Reader Node}
    (each : Yields operand Node.Part) : Yields (operation operators operand) Node.Part :=
  chain_yields rfl each

theorem bitwiseOr_yields : Yields (bitwiseOr rules) Node.Part :=
  operation_yields <| operation_yields <| operation_yields <| operation_yields <|
    operation_yields <| operation_yields <| factor_yields good

theorem comparison_yields : Yields (comparison rules) Node.Part :=
  chain_yields rfl (bitwiseOr_yields good)

theorem inversion_yields : Yields (inversion rules) Node.Part := by
  refine .step fun _ => .ite (fun _ => .step fun _ => ?_) fun _ => comparison_yields good
  exact .bind (good _) fun _ part => .pure (.plain rfl (by simp [part]))

theorem disjunction_yields : Yields (disjunction rules) Node.Part :=
  operation_yields <| operation_yields <| inversion_yields good

omit good in
theorem hintAfter_yields {reader : Reader Node} (each : Yields reader Node.Part) :
    Yields (hintAfter reader) Node.Part :=
  .step fun _ => .bind each fun _ part => .pure (.plain rfl (by simp [part]))

omit good in
theorem defaultAfter_yields {reader : Reader Node} (each : Yields reader Node.Part) :
    Yields (defaultAfter reader) Node.Part :=
  .step fun _ => .bind each fun _ part => .pure (.plain rfl (by simp [part]))

theorem parameter_yields {close : String} {stars : List Leaf} {hint : Reader Node}
    (each : Yields hint Node.Part) :
    Yields (parameter rules close stars hint) fun parameter => parameter.node.Part := by
  refine .bind name_yields fun name named => ?_
  have part {hint : Node} (hinted : hint.Part) {default : Node} (defaulted : default.Part) (comma : List Leaf) :
      (Node.plain .parameter [.glue stars, name, hint, default, .glue comma]).Part :=
    .plain rfl (by simp [named.1, hinted, defaulted])
  have hinted : Yields (if close == ":" then pure .absent else hintAfter hint) Node.Part :=
    .ite (fun _ => .pure .absent) fun _ => hintAfter_yields each
  refine .step fun _ => .ite (fun _ => .bind hinted fun _ hinted => ?_) fun _ => .bind (.pure Node.Part.absent) fun _ hinted => ?_
  all_goals
    refine .step fun _ => .ite (fun _ => .bind (defaultAfter_yields (good _)) fun _ defaulted => ?_) fun _ =>
      .bind (.pure Node.Part.absent) fun _ defaulted => ?_
    all_goals exact .step fun _ => .pure (part hinted defaulted _)

theorem parametersFrom_yields (close : String) (fuel : Nat) (stage : Stage) :
    Yields (parametersFrom rules close fuel stage) fun nodes => ∀ node ∈ nodes, node.Part := by
  induction fuel generalizing stage with
  | zero => exact .failure
  | succ fuel ih =>
    -- The rest comes by the induction, so that each kind of parameter is a case of its own.
    have follow {node : Node} (part : node.Part) (stage : Stage) :
        Yields (do return node :: (← parametersFrom rules close fuel stage)) fun nodes =>
          ∀ node ∈ nodes, node.Part :=
      .bind (ih stage) fun _ tail => .pure (by simpa [part] using tail)
    have next {parameter : Parameter} (part : parameter.node.Part) (stage : Stage) :
        Yields (do
          if parameter.hasComma then
            return parameter.node :: (← parametersFrom rules close fuel stage)
          else return [parameter.node]) fun nodes => ∀ node ∈ nodes, node.Part :=
      .ite (fun _ => follow part stage) fun _ => .pure (by simp [part])
    refine .step fun _ => .ite (fun _ => .ite (fun _ => .failure) fun _ => .pure (by simp)) fun _ =>
      .step fun _ => .ite (fun _ => .ite (fun _ => ?slash) fun _ => .failure) fun _ =>
      .step fun _ => .ite (fun _ => .ite (fun _ => .failure) fun _ => ?mapping) fun _ =>
      .step fun _ => .ite (fun _ => .ite (fun _ => .failure) fun _ => ?star) fun _ => ?plain
    case slash =>
      exact .step fun _ => .step fun _ => .ite (fun _ => follow (.glue _) _) fun _ =>
        .pure (by simp)
    case mapping =>
      exact .step fun _ => .bind (parameter_yields good (good _)) fun _ part =>
        .ite (fun _ => .failure) fun _ => .step fun _ =>
          .ite (fun _ => .pure (by simp [part])) fun _ => .failure
    case star =>
      refine .step fun _ => .step fun _ => .ite (fun _ => ?_) fun _ => ?_
      next => exact .step fun _ => .step fun _ => follow (.glue _) _
      next =>
        exact .bind (parameter_yields good (starOr_yields good (good _))) fun _ part =>
          .ite (fun _ => .failure) fun _ => next part _
    case plain =>
      exact .bind (parameter_yields good (good _)) fun _ part =>
        .ite (fun _ => .failure) fun _ => next part _

theorem parameters_yields (close : String) : Yields (parameters rules close) Node.Part :=
  .step fun _ => .bind (parametersFrom_yields good close _ _) fun _ parts => .pure (.plain rfl parts)

theorem lambda_yields : Yields (lambda rules) Node.Part :=
  .step fun _ => .bind (parameters_yields good ":") fun _ parameters => .step fun _ =>
    .bind (good _) fun _ body => .pure (.plain rfl (by simp [parameters, body]))

theorem expression_yields : Yields (expression rules) Node.Part := by
  refine .step fun _ => .ite (fun _ => lambda_yields good) fun _ =>
    .bind (disjunction_yields good) fun value part => .step fun _ => .ite (fun _ => ?_)
      fun _ => .pure part
  exact .step fun _ => .bind (good _) fun _ test => .step fun _ => .bind (good _) fun _ other =>
    .pure (.plain rfl (by simp [part, test, other]))

end

end Graft.Grammar
