import Graft.Proofs.Lossless.Operation

set_option autoImplicit false

/-!
Patterns lose nothing, and so the rules do not, however many layers there are of them.
-/
namespace Graft.Grammar

open Reader

theorem captured_reads : ReadsNode captured :=
  fun _ _ => .test (fun _ => rfl) .failure (name_reads _ _)

theorem wildcardOr_reads {reader : Reader Node} (other : ReadsNode reader) :
    ReadsNode (wildcardOr reader) :=
  fun _ _ => .test (fun _ => rfl) ((word_reads "_").bind fun _ => .wrote (by simp) rfl) (other _ _)

theorem numberLiteral_reads : ReadsNode numberLiteral :=
  fun _ _ => (sort?_reads .number).bind fun _ => .wrote (by simp) rfl

theorem signedNumber_reads : ReadsNode signedNumber :=
  fun _ _ => .test (fun _ => rfl) ((opening_reads "-").bind fun _ => numberLiteral_reads.bind fun _ =>
    .wrote (by simp) rfl) (numberLiteral_reads _ _)

theorem numberPattern_reads : ReadsNode numberPattern :=
  fun _ _ => signedNumber_reads.bind fun _ => .test (fun _ => rfl)
    ((signOf_reads ["+", "-"]).bind fun _ => numberLiteral_reads.bind fun _ => .wrote (by simp) rfl)
    (.wrote rfl rfl)

theorem dots_reads {whole done : List Leaf} (fuel : Nat) (base : Node) :
    Keeps (At whole .outside (done ++ base.leaves)) (dots fuel base) fun node =>
      At whole .outside (done ++ node.leaves) := by
  induction fuel generalizing base with
  | zero => exact .wrote rfl rfl
  | succ fuel ih => exact .test (fun _ => rfl) ((attributeOf_reads base).bind ih) (.wrote rfl rfl)

theorem dottedName_reads : ReadsNode dottedName :=
  fun _ _ => .look (fun _ => rfl) fun _ => name_reads.bind fun _ => dots_reads _ _

section

variable {rules : Rules} (good : Lossless rules)

include good

theorem classArgument_reads (keywordOnly : Bool) :
    Reads .inside (classArgument rules keywordOnly) (fun found => Node.leaves.leavesAll found.1)
      fun _ => .outside := by
  refine fun whole done => .look (fun _ => rfl) fun _ => .look (fun _ => rfl) fun _ =>
    .ite (fun _ => ?_) fun _ => .ite (fun _ => .failure) fun _ => ?_
  · exact name_reads.bind fun _ => (sign_reads "=").bind fun _ => (good.reads .pattern).bind fun _ =>
      .wrote (by simp) rfl
  · exact (good.reads .pattern).bind fun _ => .wrote (by simp) rfl

theorem classArguments_reads (fuel : Nat) (keywordOnly : Bool) :
    Reads .inside (classArguments rules fuel keywordOnly) Node.leaves.leavesAll fun _ => .inside := by
  induction fuel generalizing keywordOnly with
  | zero => exact fun _ _ => .failure
  | succ fuel ih =>
    refine fun whole done => .test (fun _ => rfl) (.wrote (by simp) rfl) <|
      (classArgument_reads good keywordOnly).bind fun found => .test (fun _ => rfl) ?_ ?_
    · exact (sign_reads ",").bind fun _ => (ih found.2).bind fun _ => .wrote (by simp) rfl
    · exact gap_reads.bind fun _ => .test (fun _ => rfl) (.wrote (by simp) rfl) .failure

theorem namePattern_reads : ReadsNode (namePattern rules) := by
  have failing : ReadsNode failure := fun _ _ => .failure
  refine fun whole done => .look (fun _ => rfl) fun _ => .look (fun _ => rfl) fun _ =>
    .look (fun _ => rfl) fun _ => .ite (fun _ => wildcardOr_reads failing _ _) fun _ =>
    dottedName_reads.bind fun base => .test (fun _ => rfl) ?_ (.wrote (by simp) rfl)
  exact (sign_reads "(").bind fun _ => .look (fun _ => rfl) fun _ =>
    (classArguments_reads good _ false).bind fun _ => (word_reads ")").bind fun _ =>
      .wrote (by simp) rfl

omit good in
theorem starPattern_reads : ReadsNode starPattern :=
  fun _ _ => (opening_reads "*").bind fun _ => (wildcardOr_reads captured_reads).bind fun _ =>
    .wrote (by simp) rfl

theorem maybeStarPattern_reads : ReadsNode (maybeStarPattern rules) :=
  fun _ _ => .test (fun _ => rfl) (starPattern_reads _ _) (good.reads .pattern _ _)

theorem parenthesisedPattern_reads : ReadsNode (parenthesisedPattern rules) :=
  fun _ _ => (opening_reads "(").bind fun _ => .test (fun _ => rfl)
    ((word_reads ")").bind fun _ => .wrote (by simp) rfl) <| .look (fun _ => rfl) fun _ =>
    (maybeStarPattern_reads good).bind fun _ => (moreItems_reads (maybeStarPattern_reads good)).bind
      fun _ => .ite (fun _ => .failure) fun _ => (mark_reads ")").bind fun _ => .wrote (by simp) rfl

theorem listPattern_reads : ReadsNode (listPattern rules) :=
  fun _ _ => (opening_reads "[").bind fun _ => .test (fun _ => rfl)
    ((word_reads "]").bind fun _ => .wrote (by simp) rfl) <|
    (maybeStarPattern_reads good).bind fun _ =>
      bracketed_reads (maybeStarPattern_reads good) (by simp)

theorem mappingKey_reads : ReadsNode (mappingKey rules) := by
  refine fun whole done => .test (fun _ => rfl) (numberPattern_reads _ _) <|
    .test (fun _ => rfl) (strings_reads good _ _) <|
    .test (fun _ => rfl) (constant_reads _ _) <| dottedName_reads.bind fun _ => ?_
  exact .ite (fun _ => .wrote rfl rfl) fun _ => .failure

theorem mappingItem_reads :
    Reads .inside (mappingItem rules) (fun found => Node.leaves.leavesAll found.1)
      fun _ => .outside :=
  fun _ _ => .test (fun _ => rfl) ((opening_reads "**").bind fun _ => captured_reads.bind fun _ =>
    .wrote (by simp) rfl) <| (mappingKey_reads good).bind fun _ => (sign_reads ":").bind fun _ =>
      (good.reads .pattern).bind fun _ => .wrote (by simp) rfl

theorem mappingItems_reads (fuel : Nat) (ended : Bool) :
    Reads .inside (mappingItems rules fuel ended) Node.leaves.leavesAll fun _ => .inside := by
  induction fuel generalizing ended with
  | zero => exact fun _ _ => .failure
  | succ fuel ih =>
    refine fun whole done => .test (fun _ => rfl) (.wrote (by simp) rfl) <|
      .ite (fun _ => .failure) fun _ => (mappingItem_reads good).bind fun found =>
        .test (fun _ => rfl) ?_ ?_
    · exact (sign_reads ",").bind fun _ => (ih found.2).bind fun _ => .wrote (by simp) rfl
    · exact gap_reads.bind fun _ => .test (fun _ => rfl) (.wrote (by simp) rfl) .failure

theorem mappingPattern_reads : ReadsNode (mappingPattern rules) :=
  fun _ _ => (opening_reads "\x7b").bind fun _ => .look (fun _ => rfl) fun _ =>
    (mappingItems_reads good _ false).bind fun _ => (word_reads "\x7d").bind fun _ =>
      .wrote (by simp) rfl

theorem closedPattern_reads : ReadsNode (closedPattern rules) :=
  fun _ _ => .test (fun _ => rfl) (numberPattern_reads.bind fun _ => .wrote (by simp) rfl) <|
    .test (fun _ => rfl) ((strings_reads good).bind fun _ => .wrote (by simp) rfl) <|
    .test (fun _ => rfl) (constant_reads.bind fun _ => .wrote (by simp) rfl) <|
    .test (fun _ => rfl) (parenthesisedPattern_reads good _ _) <|
    .test (fun _ => rfl) (listPattern_reads good _ _) <|
    .test (fun _ => rfl) (mappingPattern_reads good _ _) <| namePattern_reads good _ _

theorem pattern_reads : ReadsNode (pattern rules) :=
  fun _ _ => (chain_reads (signOf_reads ["|"]) (closedPattern_reads good)).bind fun _ =>
    .test (fun _ => rfl) ((sign_reads "as").bind fun _ => captured_reads.bind fun _ =>
      .wrote (by simp) rfl) (.wrote rfl rfl)

theorem casePatterns_reads : ReadsNode (casePatterns rules) := by
  refine fun whole done => .look (fun _ => rfl) fun _ => (maybeStarPattern_reads good).bind fun first =>
    (moreItems_reads (maybeStarPattern_reads good)).bind fun others => .ite (fun none => ?_) fun _ =>
      .wrote (by simp) rfl
  rw [List.isEmpty_iff] at none
  exact .ite (fun _ => .failure) fun _ => .wrote (by simp [none]) rfl

end

theorem rules_lossless (fuel : Nat) : Lossless (rules fuel) := by
  induction fuel with
  | zero => exact ⟨fun _ _ _ => .failure, .failure⟩
  | succ fuel good =>
    refine ⟨fun goal => ?_, expression_solid good.solid⟩
    cases goal with
    | expression => exact expression_reads good
    | disjunction => exact disjunction_reads good
    | inversion => exact inversion_reads good
    | bitwiseOr => exact bitwiseOr_reads good
    | factor => exact factor_reads good
    | primary => exact primary_reads good
    | field => exact field_reads good
    | pattern => exact pattern_reads good

end Graft.Grammar
