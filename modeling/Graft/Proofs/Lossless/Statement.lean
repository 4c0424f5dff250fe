import Graft.Proofs.Grammar.Statement
import Graft.Proofs.Lossless.Pattern

set_option autoImplicit false

/-!
Small statements lose nothing.
-/
namespace Graft.Grammar

open Reader

theorem alone_reads (text : String) : ReadsNode (alone text) :=
  fun _ _ => (word_reads text).bind fun _ => .wrote (by simp) rfl

theorem wordWith_reads {kind : Kind} {text : String} {rest : Reader (List Node)}
    (after : Reads .inside rest Node.leaves.leavesAll fun _ => .outside) :
    ReadsNode (wordWith kind text rest) := by
  have more : Reads .outside (do
      let gap ← gap
      return .glue gap :: (← rest)) Node.leaves.leavesAll fun _ => .outside :=
    fun _ _ => gap_reads.bind fun _ => after.bind fun _ => .wrote (by simp) rfl
  refine fun whole done => (word_reads text).bind fun _ => more.optional.bind fun more =>
    .wrote ?_ rfl
  cases more <;> simp

theorem nameList_reads {kind : Kind} {text : String} : ReadsNode (nameList kind text) := by
  have other : Reads .outside (do
      let comma ← sign ","
      return [.glue comma, ← name]) Node.leaves.leavesAll fun _ => .outside :=
    fun _ _ => (sign_reads ",").bind fun _ => name_reads.bind fun _ => .wrote (by simp) rfl
  exact fun _ _ => (opening_reads text).bind fun _ => name_reads.bind fun _ =>
    other.many.bind fun _ => .wrote (by simp) rfl

theorem binderAs_reads {target : Reader Node} (each : ReadsNode target) :
    Reads .outside (binderAs target) Node.leaves fun _ => .outside :=
  fun _ _ => .test (fun _ => rfl) ((sign_reads "as").bind fun _ => each.bind fun _ =>
    .wrote (by simp) rfl) (.wrote (by simp) rfl)

theorem endsOpen_alias (name binder comma : Node) :
    endsOpen [.plain .alias [name, binder, comma]] = comma.isAbsent :=
  endsOpen_plain .alias [name, binder] comma

theorem importAlias_reads {imported : Reader Node} (each : ReadsNode imported) :
    Reads .inside (importAlias imported do return (← optional (sign ",")).getD []) Node.leaves
      fun item => .past (endsOpen [item]) :=
  fun _ _ => each.bind fun name => (binderAs_reads name_reads).bind fun binder =>
    comma_reads.bind fun comma => .wrote (by simp) (by rw [endsOpen_alias, Node.isAbsent_glue])

theorem importAlias_shape {imported : Reader Node} {comma : Reader (List Leaf)} :
    Yields (importAlias imported comma) fun item =>
      ∃ name binder last, item = .plain .alias [name, binder, last] :=
  .step fun _ => .step fun _ => .step fun _ => .pure ⟨_, _, _, rfl⟩

theorem importedModules_reads (fuel : Nat) :
    Reads .inside (importedModules fuel) Node.leaves.leavesAll fun _ => .outside := by
  induction fuel with
  | zero => exact fun _ _ => .failure
  | succ fuel ih =>
    refine fun whole done => (importAlias_reads dottedName_reads).bindOf importAlias_shape
      fun item shape => ?_
    rcases shape with ⟨name, binder, comma, rfl⟩
    rw [endsOpen_alias]
    refine .ite (fun missing => ?_) fun given => ?_
    · rw [missing]
      exact .wrote (by simp) rfl
    · rw [Bool.not_eq_true] at given
      rw [given]
      exact ih.bind fun _ => .wrote (by simp) rfl

theorem importing_reads : ReadsNode importing :=
  fun _ _ => (opening_reads "import").bind fun _ => .look (fun _ => rfl) fun _ =>
    (importedModules_reads _).bind fun _ => .wrote (by simp) rfl

theorem importedNames_reads_bare (fuel : Nat) :
    Reads .inside (importedNames none fuel) Node.leaves.leavesAll fun _ => .outside := by
  induction fuel with
  | zero => exact fun _ _ => .failure
  | succ fuel ih =>
    refine fun whole done => (importAlias_reads name_reads).bindOf importAlias_shape
      fun item shape => ?_
    rcases shape with ⟨name, binder, comma, rfl⟩
    rw [endsOpen_alias]
    refine .ite (fun missing => ?_) fun given => ?_
    · rw [missing]
      exact .wrote (by simp) rfl
    · rw [Bool.not_eq_true] at given
      rw [given]
      exact ih.bind fun _ => .wrote (by simp) rfl

theorem importedNames_reads (close : String) (fuel : Nat) :
    Reads .inside (importedNames (some close) fuel) Node.leaves.leavesAll fun aliases =>
      .past (endsOpen aliases) := by
  induction fuel with
  | zero => exact fun _ _ => .failure
  | succ fuel ih =>
    refine fun whole done => (importAlias_reads name_reads).bindOf importAlias_shape
      fun item shape => ?_
    rcases shape with ⟨name, binder, comma, rfl⟩
    refine .ite (fun _ => .wrote (by simp) rfl) fun given => .test (fun _ => rfl) (.wrote (by simp) rfl) ?_
    have closed : endsOpen [.plain .alias [name, binder, comma]] = false := by
      rw [endsOpen_alias, Bool.eq_false_iff]
      exact given
    rw [closed]
    exact ih.bind fun _ => .wrote (by simp) (by rw [endsOpen_cons closed])

theorem closeImports_reads {whole done : List Leaf} (aliases : List Node) :
    Keeps (At whole (.past (endsOpen aliases)) done) (closeImports aliases) fun closing =>
      At whole .outside (done ++ closing) := by
  unfold closeImports
  split
  next kind parens name binder comma last =>
    have ends : endsOpen aliases = comma.isAbsent := by simp [endsOpen, last]
    rw [ends]
    refine .ite (fun missing => ?_) fun given => ?_
    · rw [missing]
      exact mark_reads ")" _ _
    · rw [Bool.not_eq_true] at given
      rw [given]
      exact word_reads ")" _ _
  next => exact .failure

theorem isAbsent_of_isDotted {node : Node} (dotted : node.isDotted = true) :
    node.isAbsent = false := by
  cases node with
  | leaf l => rfl
  | name parens id => rfl
  | branch kind parens children => cases kind <;> first | rfl | simp [Node.isDotted] at dotted

theorem importedAfter_reads {whole done : List Leaf} (fromWord dots word : List Leaf) (module : Node) :
    Keeps (At whole .inside (done ++ (fromWord ++ dots ++ module.leaves ++ word)))
      (importedAfter fromWord dots module word) fun node => At whole .outside (done ++ node.leaves) := by
  refine .test (fun _ => rfl) ((word_reads "*").bind fun _ => .wrote (by simp) rfl) <|
    .test (fun _ => rfl) ((opening_reads "(").bind fun _ => .look (fun _ => rfl) fun _ =>
      (importedNames_reads ")" _).bind fun aliases => (closeImports_reads aliases).bind fun _ =>
        .wrote (by simp) rfl) ?_
  exact .look (fun _ => rfl) fun _ => (importedNames_reads_bare _).bind fun _ =>
    .wrote (by simp) rfl

theorem importFrom_reads : ReadsNode importFrom := by
  refine fun whole done => (opening_reads "from").bind fun fromWord => (openingOf_reads _).many.bind fun dots => ?_
  have rest (module : Node) (word : List Leaf) {start : List Leaf}
      (same : start = done ++ (fromWord ++ dots.flatten ++ module.leaves ++ word)) :
      Keeps (At whole .inside start) (importedAfter fromWord dots.flatten module word) fun node =>
        At whole .outside (done ++ node.leaves) := by
    subst same
    exact importedAfter_reads fromWord dots.flatten word module
  have left : Yields (if dots.isEmpty then failure else pure .absent : Reader Node)
      fun module => module = .absent := .ite (fun _ => .failure) fun _ => .pure rfl
  have stays {P : List Source.Token → Prop} :
      Keeps P (if dots.isEmpty then failure else pure .absent : Reader Node) fun _ => P :=
    .ite (fun _ => .failure) fun _ => .pure fun _ h => h
  refine .test (fun _ => rfl) (.bindOf left stays fun module absent => ?_) <|
    dottedName_reads.bindOf dottedName_yields fun module dotted => ?_
  · subst absent
    refine .ite (fun _ => (opening_reads "import").bind fun word => rest _ word (by simp)) fun present => ?_
    exact absurd rfl present
  · refine .ite (fun absent => ?_) fun _ => (sign_reads "import").bind fun word => rest _ word (by simp)
    simp [isAbsent_of_isDotted dotted.2] at absent

section

variable {rules : Rules} (good : Lossless rules)

include good

theorem value_reads : ReadsNode (value rules) :=
  yieldOr_reads good (starExpressions_reads good)

variable {whole done : List Leaf} (target : Node)

theorem annotatedOf_reads : Keeps (At whole .outside (done ++ target.leaves))
    (annotatedOf rules target) fun node => At whole .outside (done ++ node.leaves) :=
  (hintAfter_reads (good.reads .expression)).bind fun _ => .test (fun _ => rfl)
    ((sign_reads "=").bind fun _ => (value_reads good).bind fun _ => .wrote (by simp) rfl)
    (.wrote (by simp) rfl)

theorem augmentedOf_reads : Keeps (At whole .outside (done ++ target.leaves))
    (augmentedOf rules target) fun node => At whole .outside (done ++ node.leaves) :=
  (signOf_reads augmentations).bind fun _ => (value_reads good).bind fun _ => .wrote (by simp) rfl

theorem assignedFrom_reads (fuel : Nat) : Keeps (At whole .outside (done ++ target.leaves))
    (assignedFrom rules fuel target) fun nodes =>
      At whole .outside (done ++ Node.leaves.leavesAll nodes) := by
  induction fuel generalizing done target with
  | zero => exact .failure
  | succ fuel ih =>
    refine .test (fun _ => rfl) (.ite (fun _ => ?_) fun _ => .failure) (.wrote (by simp) rfl)
    refine (sign_reads "=").bind fun equals => (value_reads good).bind fun next => ?_
    exact (ih next).bind fun _ => .wrote (by simp) rfl

theorem expressionOrAssignment_reads : ReadsNode (expressionOrAssignment rules) := by
  refine fun whole done => (value_reads good).bind fun first =>
    .test (fun _ => rfl) (.ite (fun _ => annotatedOf_reads good first) fun _ => .failure) <|
    .test (fun _ => rfl) (.ite (fun _ => augmentedOf_reads good first) fun _ => .failure) <|
    .test (fun _ => rfl) (.look (fun _ => rfl) fun _ => ?_) (.wrote (by simp) rfl)
  exact (assignedFrom_reads good first _).bind fun _ => .wrote (by simp) rfl

theorem raising_reads : ReadsNode (raising rules) := by
  have cause : Reads .outside (do
      let word ← sign "from"
      return [.glue word, ← rules .expression]) Node.leaves.leavesAll fun _ => .outside :=
    fun _ _ => (sign_reads "from").bind fun _ => (good.reads .expression).bind fun _ =>
      .wrote (by simp) rfl
  refine wordWith_reads fun whole done => (good.reads .expression).bind fun raised =>
    cause.optional.bind fun cause => .wrote ?_ rfl
  cases cause <;> simp

theorem asserting_reads : ReadsNode (asserting rules) := by
  have message : Reads .outside (do
      let comma ← sign ","
      return [.glue comma, ← rules .expression]) Node.leaves.leavesAll fun _ => .outside :=
    fun _ _ => (sign_reads ",").bind fun _ => (good.reads .expression).bind fun _ =>
      .wrote (by simp) rfl
  refine fun whole done => (opening_reads "assert").bind fun word =>
    (good.reads .expression).bind fun test => message.optional.bind fun message => .wrote ?_ rfl
  cases message <;> simp

theorem deleting_reads : ReadsNode (deleting rules) :=
  fun _ _ => (opening_reads "del").bind fun _ => (itemsOrTuple_reads (good.reads .primary)).bind
    fun _ => .ite (fun _ => .wrote (by simp) rfl) fun _ => .failure

theorem typeParameter_reads :
    Reads .inside (typeParameter rules) Node.leaves fun parameter => .past !endsComma parameter := by
  have bound : Reads .outside (do
      let colon ← sign ":"
      return Node.plain .bound [.glue colon, ← rules .expression]) Node.leaves fun _ => .outside :=
    fun _ _ => (sign_reads ":").bind fun _ => (good.reads .expression).bind fun _ =>
      .wrote (by simp) rfl
  refine fun whole done => .look (fun _ => rfl) fun _ => (openingOf_reads _).bindOr rfl fun stars =>
    name_reads.bind fun name => .look (fun _ => rfl) fun _ =>
    bound.bindOr Node.leaves_absent fun bound => .look (fun _ => rfl) fun _ =>
    (defaultAfter_reads (starOr_reads good (good.reads .expression))).bindOr Node.leaves_absent
      fun default => .bindOf (sign_yields ",").optional (sign_reads "," _ _).optional fun found some => ?_
  cases found with
  | none => exact .wrote (by simp) rfl
  | some comma => exact .wrote (by simp) (by simp [endsComma, Node.plain, Side.past, some comma])

theorem typeParametersFrom_reads (fuel : Nat) :
    Reads .inside (typeParametersFrom rules fuel) Node.leaves.leavesAll fun _ => .outside := by
  induction fuel with
  | zero => exact fun _ _ => .failure
  | succ fuel ih =>
    refine fun whole done => (typeParameter_reads good).bind fun parameter => .ite (fun ends => ?_) fun opens => ?_
    · rw [ends]
      exact .test (fun _ => rfl) ((word_reads "]").bind fun _ => .wrote (by simp) rfl)
        (ih.bind fun _ => .wrote (by simp) rfl)
    · rw [Bool.not_eq_true] at opens
      rw [opens]
      exact (mark_reads "]").bind fun _ => .wrote (by simp) rfl

theorem typeParameters_reads : Reads .outside (typeParameters rules) Node.leaves fun _ => .outside :=
  fun _ _ => .test (fun _ => rfl) ((sign_reads "[").bind fun _ => .look (fun _ => rfl) fun _ =>
    (typeParametersFrom_reads good _).bind fun _ => .wrote (by simp) rfl) (.wrote (by simp) rfl)

theorem typeAlias_reads : ReadsNode (typeAlias rules) :=
  fun _ _ => (opening_reads "type").bind fun _ => name_reads.bind fun _ =>
    (typeParameters_reads good).bind fun _ => (sign_reads "=").bind fun _ =>
      (good.reads .expression).bind fun _ => .wrote (by simp) rfl

theorem smallStatement_reads : ReadsNode (smallStatement rules) := by
  have returned : Reads .inside (do return [← starExpressions rules]) Node.leaves.leavesAll
      fun _ => .outside := fun _ _ => (starExpressions_reads good).bind fun _ => .wrote (by simp) rfl
  exact fun whole done => .test (fun _ => rfl) (wordWith_reads returned _ _) <|
    .test (fun _ => rfl) (importing_reads _ _) <|
    .test (fun _ => rfl) (importFrom_reads _ _) <|
    .test (fun _ => rfl) (raising_reads good _ _) <|
    .test (fun _ => rfl) (alone_reads "pass" _ _) <|
    .test (fun _ => rfl) (deleting_reads good _ _) <|
    .test (fun _ => rfl) (asserting_reads good _ _) <|
    .test (fun _ => rfl) (alone_reads "break" _ _) <|
    .test (fun _ => rfl) (alone_reads "continue" _ _) <|
    .test (fun _ => rfl) (nameList_reads _ _) <|
    .test (fun _ => rfl) (nameList_reads _ _) <|
    .test (fun _ => rfl) (typeAlias_reads good _ _) <| expressionOrAssignment_reads good _ _

omit good in
theorem atEnd_keeps {P : List Source.Token → Prop} :
    Keeps P atEnd fun found tokens => P tokens ∧ (found = true → tokens = []) := by
  intro tokens found rest before run
  obtain ⟨rfl, rfl⟩ : tokens.isEmpty = found ∧ tokens = rest := by simpa [atEnd] using run
  exact ⟨before, List.isEmpty_iff.1⟩

theorem smallStatements_reads (fuel : Nat) :
    Reads .inside (smallStatements rules fuel) Node.leaves.leavesAll fun _ => .outside := by
  induction fuel with
  | zero => exact fun _ _ => .failure
  | succ fuel ih =>
    refine fun whole done => (smallStatement_reads good).bind fun first => .test (fun _ => rfl)
      ((sign_reads ";").bind fun semicolon => atEnd_keeps.bind fun ends => ?_)
      (.test (fun _ => rfl) (.wrote (by simp) rfl) .failure)
    refine .ite (fun ended => .pure fun tokens after => ?_) fun _ => .pre (fun _ after => after.1) ?_
    · -- A last semicolon has taken the gap after it, and there is none at the end of a line.
      cases after.2 ended
      exact ⟨after.1.tight, by simpa [Side.view] using after.1.split⟩
    · exact ih.bind fun _ => .wrote (by simp) rfl

end

end Graft.Grammar
