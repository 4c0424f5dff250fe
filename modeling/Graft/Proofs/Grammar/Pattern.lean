import Graft.Proofs.Grammar.Operation

set_option autoImplicit false

/-!
Patterns are parts as well, and so is everything that the rules give, tied together.
-/
namespace Graft.Grammar

open Reader

theorem captured_yields : Yields captured Node.Part :=
  .step fun _ => .ite (fun _ => .failure) fun _ => name_yields.imp fun _ h => h.1

theorem wildcardOr_yields {reader : Reader Node} (other : Yields reader Node.Part) :
    Yields (wildcardOr reader) Node.Part := by
  refine .step fun _ => .ite (fun _ => ?_) fun _ => other
  refine .step fun leaves => .pure (.plain rfl fun node mem => ?_)
  obtain ⟨leaf, -, rfl⟩ := List.mem_map.1 mem
  exact .leaf leaf

theorem numberLiteral_yields : Yields numberLiteral Node.Part :=
  .step fun _ => .pure (.plain rfl (by simp))

theorem signedNumber_yields : Yields signedNumber Node.Part := by
  refine .step fun _ => .ite (fun _ => .step fun _ => ?_) fun _ => numberLiteral_yields
  exact .bind numberLiteral_yields fun _ part => .pure (.plain rfl (by simp [part]))

theorem numberPattern_yields : Yields numberPattern Node.Part := by
  refine .bind signedNumber_yields fun _ real => .step fun _ => .ite (fun _ => .step fun _ => ?_)
    fun _ => .pure real
  exact .bind numberLiteral_yields fun _ part => .pure (.plain rfl (by simp [real, part]))

theorem dots_yields (fuel : Nat) {base : Node} (part : base.Part) (dotted : base.isDotted = true) :
    Yields (dots fuel base) fun node => node.Part ∧ node.isDotted = true := by
  induction fuel generalizing base with
  | zero => exact .pure ⟨part, dotted⟩
  | succ fuel ih =>
    exact .step fun _ => .ite (fun _ => .bind (attributeOf_yields part) fun _ h => ih h.1 (h.2 dotted))
      fun _ => .pure ⟨part, dotted⟩

theorem isDotted_of_isName {node : Node} (named : node.isName = true) : node.isDotted = true := by
  cases node <;> simp_all [Node.isName, Node.isDotted]

theorem dottedName_yields : Yields dottedName fun node => node.Part ∧ node.isDotted = true :=
  .step fun _ => .bind name_yields fun _ h => dots_yields _ h.1 (isDotted_of_isName h.2)

section

variable {rules : Rules} (good : ∀ goal, Yields (rules goal) Node.Part)

include good

theorem classArgument_yields (keywordOnly : Bool) :
    Yields (classArgument rules keywordOnly) fun found => ∀ node ∈ found.1, node.Part := by
  refine .step fun _ => .step fun _ => .ite (fun _ => ?_) fun _ => .ite (fun _ => .failure) fun _ => ?_
  next =>
    exact .bind name_yields fun _ keyword => .step fun _ => .bind (good _) fun _ part =>
      .pure (by simp [keyword.1, part])
  next => exact .bind (good _) fun _ part => .pure (by simp [part])

theorem classArguments_yields (fuel : Nat) (keywordOnly : Bool) :
    Yields (classArguments rules fuel keywordOnly) fun nodes => ∀ node ∈ nodes, node.Part := by
  induction fuel generalizing keywordOnly with
  | zero => exact .failure
  | succ fuel ih =>
    refine .step fun _ => .ite (fun _ => .pure (by simp)) fun _ =>
      .bind (classArgument_yields good keywordOnly) fun found parts => .step fun _ =>
        .ite (fun _ => ?_) fun _ => .step fun _ => .step fun _ => .ite (fun _ => ?_) fun _ => .failure
    next =>
      exact .step fun _ => .bind (ih _) fun _ tail =>
        .pure (by simpa [or_imp, forall_and] using ⟨parts, tail⟩)
    next => exact .pure (by simpa [or_imp, forall_and] using parts)

theorem namePattern_yields : Yields (namePattern rules) Node.Part := by
  refine .step fun _ => .step fun _ => .step fun _ => .ite (fun _ => wildcardOr_yields .failure)
    fun _ => .bind dottedName_yields fun base h => .step fun _ => .ite (fun _ => ?_) fun _ =>
      .pure (.plain rfl (by simp [h.1]))
  exact .step fun _ => .step fun _ => .bind (classArguments_yields good _ _) fun _ parts =>
    .step fun _ => .pure (.plain rfl (by simpa [h.1, or_imp, forall_and] using parts))

omit good in
theorem starPattern_yields : Yields starPattern Node.Part :=
  .step fun _ => .bind (wildcardOr_yields captured_yields) fun _ part =>
    .pure (.plain rfl (by simp [part]))

theorem maybeStarPattern_yields : Yields (maybeStarPattern rules) Node.Part :=
  .step fun _ => .ite (fun _ => starPattern_yields) fun _ => good _

theorem parenthesisedPattern_yields : Yields (parenthesisedPattern rules) Node.Part := by
  refine .step fun _ => .step fun _ => .ite (fun _ => .step fun _ => .pure (.branch rfl (by simp)))
    fun _ => .step fun _ => .bind (maybeStarPattern_yields good) fun _ head =>
      .bind (moreItems_yields (maybeStarPattern_yields good)) fun _ tail =>
        .ite (fun _ => .failure) fun _ => .step fun _ => .pure (.branch rfl ?_)
  simpa [head] using tail

theorem listPattern_yields : Yields (listPattern rules) Node.Part := by
  refine .step fun _ => .step fun _ => .ite (fun _ => .step fun _ => .pure (.plain rfl (by simp)))
    fun _ => .bind (maybeStarPattern_yields good) fun _ head => ?_
  exact bracketed_yields rfl head (maybeStarPattern_yields good)

theorem mappingKey_yields : Yields (mappingKey rules) Node.Part := by
  refine .step fun _ => .ite (fun _ => numberPattern_yields) fun _ => .step fun _ =>
    .ite (fun _ => strings_yields good) fun _ => .step fun _ => .ite (fun _ => constant_yields)
      fun _ => .bind dottedName_yields fun _ h => .ite (fun _ => .pure h.1) fun _ => .failure

theorem mappingItem_yields :
    Yields (mappingItem rules) fun found => ∀ node ∈ found.1, node.Part := by
  refine .step fun _ => .ite (fun _ => .step fun _ => .bind captured_yields fun _ part =>
    .pure (by simp [part])) fun _ => ?_
  exact .bind (mappingKey_yields good) fun _ key => .step fun _ => .bind (good _) fun _ part =>
    .pure (by simp [key, part])

theorem mappingItems_yields (fuel : Nat) (ended : Bool) :
    Yields (mappingItems rules fuel ended) fun nodes => ∀ node ∈ nodes, node.Part := by
  induction fuel generalizing ended with
  | zero => exact .failure
  | succ fuel ih =>
    refine .step fun _ => .ite (fun _ => .pure (by simp)) fun _ => .ite (fun _ => .failure) fun _ =>
      .bind (mappingItem_yields good) fun found parts => .step fun _ => .ite (fun _ => ?_) fun _ =>
        .step fun _ => .step fun _ => .ite (fun _ => ?_) fun _ => .failure
    next =>
      exact .step fun _ => .bind (ih _) fun _ tail =>
        .pure (by simpa [or_imp, forall_and] using ⟨parts, tail⟩)
    next => exact .pure (by simpa [or_imp, forall_and] using parts)

theorem mappingPattern_yields : Yields (mappingPattern rules) Node.Part :=
  .step fun _ => .step fun _ => .bind (mappingItems_yields good _ _) fun _ parts => .step fun _ =>
    .pure (.plain rfl (by simpa [or_imp, forall_and] using parts))

theorem closedPattern_yields : Yields (closedPattern rules) Node.Part :=
  .step fun _ => .ite (fun _ => .bind numberPattern_yields fun _ h => .pure (.plain rfl (by simp [h])))
    fun _ => .step fun _ => .ite (fun _ => .bind (strings_yields good) fun _ h =>
      .pure (.plain rfl (by simp [h]))) fun _ => .step fun _ => .ite (fun _ =>
        .bind constant_yields fun _ h => .pure (.plain rfl (by simp [h]))) fun _ =>
    .step fun _ => .ite (fun _ => parenthesisedPattern_yields good) fun _ =>
    .step fun _ => .ite (fun _ => listPattern_yields good) fun _ =>
    .step fun _ => .ite (fun _ => mappingPattern_yields good) fun _ => namePattern_yields good

theorem pattern_yields : Yields (pattern rules) Node.Part := by
  refine .bind (chain_yields rfl (closedPattern_yields good)) fun either part => .step fun _ =>
    .ite (fun _ => .step fun _ => ?_) fun _ => .pure part
  exact .bind captured_yields fun _ h => .pure (.plain rfl (by simp [part, h]))

theorem casePatterns_yields : Yields (casePatterns rules) Node.Part := by
  refine .step fun _ => .bind (maybeStarPattern_yields good) fun _ head =>
    .bind (moreItems_yields (maybeStarPattern_yields good)) fun _ tail => .ite (fun _ =>
      .ite (fun _ => .failure) fun _ => .pure head) fun _ => .pure (.plain rfl ?_)
  simpa [head] using tail

end

/-- Everything that the rules give is a part, however many layers of rules there are. -/
theorem rules_yields (fuel : Nat) (goal : Goal) : Yields (rules fuel goal) Node.Part := by
  induction fuel generalizing goal with
  | zero => exact .failure
  | succ fuel ih =>
    cases goal with
    | expression => exact expression_yields ih
    | disjunction => exact disjunction_yields ih
    | inversion => exact inversion_yields ih
    | bitwiseOr => exact bitwiseOr_yields ih
    | factor => exact factor_yields ih
    | primary => exact primary_yields ih
    | field => exact field_yields ih
    | pattern => exact pattern_yields ih

end Graft.Grammar
