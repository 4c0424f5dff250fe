import Graft.Proofs.Grammar.Yields
import Graft.Proofs.Identifier
import Graft.Proofs.Tree.Shape

set_option autoImplicit false

/-!
Readers lose nothing. What a reader has passed is written in its result, so that the leaves written so
far and those of the tokens still to come are always the leaves of the whole line.
-/
namespace Graft

namespace Node

@[simp] theorem leavesAll_nil : leaves.leavesAll [] = [] := rfl

@[simp] theorem leavesAll_cons (node : Node) (rest : List Node) :
    leaves.leavesAll (node :: rest) = node.leaves ++ leaves.leavesAll rest := rfl

@[simp] theorem leavesAll_append (front back : List Node) :
    leaves.leavesAll (front ++ back) = leaves.leavesAll front ++ leaves.leavesAll back := by
  induction front with
  | nil => rfl
  | cons node rest ih => simp [ih]

@[simp] theorem flatMap_leaves (nodes : List Node) :
    nodes.flatMap leaves = leaves.leavesAll nodes := by
  induction nodes with
  | nil => rfl
  | cons node rest ih => simp [ih]

@[simp] theorem leavesAll_flatten (groups : List (List Node)) :
    leaves.leavesAll groups.flatten = groups.flatMap leaves.leavesAll := by
  induction groups with
  | nil => rfl
  | cons group rest ih => simp [ih]

@[simp] theorem leavesAll_map_leaf (written : List Leaf) :
    leaves.leavesAll (written.map .leaf) = written := by
  simpa [glue, plain, leaves] using leaves_glue written

@[simp] theorem leaves_plain (kind : Kind) (children : List Node) :
    (plain kind children).leaves = leaves.leavesAll children := by
  simp [plain, leaves]

@[simp] theorem leaves_branch (kind : Kind) (opening closing : List Leaf) (children : List Node) :
    (branch kind ⟨opening, closing⟩ children).leaves =
      opening ++ leaves.leavesAll children ++ closing := rfl

@[simp] theorem leaves_name (id : Identifier) : (name {} id).leaves = [.text id.text] := rfl

@[simp] theorem leaves_text (written : String) : (text written).leaves = [.text written] := rfl

@[simp] theorem leaves_absent : absent.leaves = [] := rfl

@[simp] theorem isAbsent_glue (written : List Leaf) :
    (glue written).isAbsent = written.isEmpty := by
  cases written <;> rfl

theorem leaves_wrap {node : Node} (solid : node.isLeaf = false) (opening closing : List Leaf) :
    (node.wrap opening closing).leaves = opening ++ node.leaves ++ closing := by
  cases node with
  | leaf l => simp [isLeaf] at solid
  | name parens id => simp [wrap, wrapParens, leaves]
  | branch kind parens children => simp [wrap, wrapParens, leaves]

end Node

def Source.Token.leaves (token : Source.Token) : List Leaf := token.gap ++ [.text token.text]

/-- Inside a formatted literal there are no gaps. -/
def Source.Token.isTight (token : Source.Token) : Bool :=
  token.gap.isEmpty || !(token.sort = .literalText || token.sort = .literalEnd)

namespace Grammar

open Source

/-- From states that are good in one way a reader comes to results and states that are good in
another, if it comes to any. -/
def Keeps {S A : Type} (P : S → Prop) (reader : StateT S Option A) (Q : A → S → Prop) : Prop :=
  ∀ state result rest, P state → reader.run state = some (result, rest) → Q result rest

namespace Keeps

variable {S A B : Type} {P : S → Prop} {Q : A → S → Prop} {R : B → S → Prop}

theorem pure {result : A} (holds : ∀ state, P state → Q result state) :
    Keeps P (pure result : StateT S Option A) Q := by
  intro state other rest before run
  simp only [StateT.run_pure, Option.pure_def, Option.some.injEq, Prod.mk.injEq] at run
  exact run.1 ▸ run.2 ▸ holds state before

theorem bind {first : StateT S Option A} {next : A → StateT S Option B} (head : Keeps P first Q)
    (tail : ∀ result, Keeps (Q result) (next result) R) : Keeps P (first >>= next) R := by
  intro state result rest before run
  simp only [StateT.run_bind, Option.bind_eq_bind, Option.bind_eq_some_iff] at run
  rcases run with ⟨⟨middle, between⟩, early, late⟩
  exact tail middle between result rest (head state middle between before early) late

theorem pureBind {result : A} {next : A → StateT S Option B} (tail : Keeps P (next result) R) :
    Keeps P (Pure.pure result >>= next) R := by
  rwa [pure_bind]

theorem look {first : StateT S Option A} {next : A → StateT S Option B} {seen : S → A}
    (looks : ∀ state, first.run state = some (seen state, state))
    (tail : ∀ result, Keeps P (next result) R) : Keeps P (first >>= next) R := by
  refine bind (Q := fun _ => P) ?_ tail
  intro state result rest before run
  rw [looks, Option.some.injEq, Prod.mk.injEq] at run
  exact run.2 ▸ before

theorem failure : Keeps P (failure : StateT S Option A) Q := by
  intro state result rest before run
  exact absurd (show none = some (result, rest) from run) (by simp)

theorem ite {condition : Prop} [Decidable condition] {yes no : StateT S Option A}
    (holds : condition → Keeps P yes Q) (fails : ¬ condition → Keeps P no Q) :
    Keeps P (if condition then yes else no) Q := by
  split
  next h => exact holds h
  next h => exact fails h

theorem test {condition : StateT S Option Bool} {yes no : StateT S Option B} {seen : S → Bool}
    (looks : ∀ state, condition.run state = some (seen state, state)) (holds : Keeps P yes R)
    (fails : Keeps P no R) :
    Keeps P (condition >>= fun found => if found = true then yes else no) R :=
  look looks fun _ => ite (fun _ => holds) fun _ => fails

theorem orElse {first second : StateT S Option A} (left : Keeps P first Q)
    (right : Keeps P second Q) : Keeps P (first <|> second) Q := by
  intro state result rest before run
  exact (Yields.run_of_orElse run).elim (left _ _ _ before) (right _ _ _ before)

theorem imp {reader : StateT S Option A} {weaker : A → S → Prop} (holds : Keeps P reader Q)
    (implies : ∀ result state, Q result state → weaker result state) : Keeps P reader weaker :=
  fun state result rest before run => implies result rest (holds state result rest before run)

theorem bindOf {fact : A → Prop} {first : StateT S Option A} {next : A → StateT S Option B}
    (yields : Yields first fact) (head : Keeps P first Q)
    (tail : ∀ result, fact result → Keeps (Q result) (next result) R) :
    Keeps P (first >>= next) R := by
  have both : Keeps P first fun result state => fact result ∧ Q result state :=
    fun state result rest before run =>
      ⟨yields state result rest run, head state result rest before run⟩
  exact both.bind fun result state other rest after => tail result after.1 state other rest after.2

theorem pre {stronger : S → Prop} {reader : StateT S Option A}
    (implies : ∀ state, stronger state → P state) (holds : Keeps P reader Q) :
    Keeps stronger reader Q :=
  fun state result rest before run => holds state result rest (implies state before) run

theorem optional {reader : StateT S Option A} (holds : Keeps P reader Q) :
    Keeps P (optional reader) fun found state =>
      match found with
      | some result => Q result state
      | none => P state := by
  apply orElse
  · rw [map_eq_pure_bind]
    exact holds.bind fun result => .pure fun _ after => after
  · exact .pure fun _ before => before

end Keeps

theorem Keeps.bindOr {S A B : Type} {F : List Leaf → S → Prop} {Q : B → S → Prop} {done : List Leaf}
    {leaves : A → List Leaf} {condition : Prop} [Decidable condition] {first : StateT S Option A}
    {other : A} {next : A → StateT S Option B}
    (head : Keeps (F done) first fun result => F (done ++ leaves result)) (empty : leaves other = [])
    (tail : ∀ result, Keeps (F (done ++ leaves result)) (next result) Q) :
    Keeps (F done) (if condition then first >>= next else Pure.pure other >>= next) Q := by
  have left := tail other
  rw [empty, List.append_nil] at left
  exact .ite (fun _ => head.bind tail) fun _ => .pureBind left

theorem Keeps.ofOption {A : Type} {P : Lines → Prop} {Q : A → Lines → Prop} {found : Option A}
    (holds : ∀ result, found = some result → ∀ state, P state → Q result state) :
    Keeps P (Script.ofOption found) Q := by
  cases found with
  | none => exact .failure
  | some result => exact .pure (holds result rfl)

/-- Where a reader stands at the next token: before the gap in front of it, or after that. -/
inductive Side where
  | outside
  | inside

def Side.view : Side → List Token → List Leaf
  | .outside, tokens => tokens.flatMap Token.leaves
  -- The gap of the first token has been written already.
  | .inside, [] => []
  | .inside, token :: rest => .text token.text :: rest.flatMap Token.leaves

@[simp] theorem Side.view_nil (side : Side) : side.view [] = [] := by
  cases side <;> rfl

/-- Where a reader stands after a comma that may be missing. A comma takes the gap after it. -/
def Side.past (missing : Bool) : Side := if missing then .outside else .inside

@[simp] theorem Side.past_true : Side.past true = .outside := rfl

@[simp] theorem Side.past_false : Side.past false = .inside := rfl

/-- The state of a reader that has written `done` so far. -/
structure At (whole : List Leaf) (side : Side) (done : List Leaf) (tokens : List Token) : Prop where
  tight : ∀ token ∈ tokens, token.isTight = true
  -- Nothing is lost and nothing is written twice, whatever the reader makes of it.
  split : whole = done ++ side.view tokens

/-- A reader writes what it passes on its way from one side to another. -/
def Reads {A : Type} (start : Side) (reader : Reader A) (leaves : A → List Leaf)
    (finish : A → Side) : Prop :=
  ∀ whole done, Keeps (At whole start done) reader fun result =>
    At whole (finish result) (done ++ leaves result)

/-- A reader of a node leaves the gap before it to its caller. -/
abbrev ReadsNode (reader : Reader Node) : Prop :=
  Reads .inside reader Node.leaves fun _ => .outside

namespace Reads

variable {A B : Type} {start : Side} {leaves : A → List Leaf} {finish : A → Side}
  {whole done : List Leaf} {Q : B → List Token → Prop}

theorem bind {first : Reader A} {next : A → Reader B} (head : Reads start first leaves finish)
    (tail : ∀ result, Keeps (At whole (finish result) (done ++ leaves result)) (next result) Q) :
    Keeps (At whole start done) (first >>= next) Q :=
  Keeps.bind (head whole done) tail

theorem bindOf {fact : A → Prop} {first : Reader A} {next : A → Reader B}
    (head : Reads start first leaves finish) (yields : Yields first fact)
    (tail : ∀ result, fact result →
      Keeps (At whole (finish result) (done ++ leaves result)) (next result) Q) :
    Keeps (At whole start done) (first >>= next) Q :=
  Keeps.bindOf yields (head whole done) tail

theorem bindOr {condition : Prop} [Decidable condition] {first : Reader A} {other : A}
    {next : A → Reader B} (head : Reads start first leaves fun _ => start) (empty : leaves other = [])
    (tail : ∀ result, Keeps (At whole start (done ++ leaves result)) (next result) Q) :
    Keeps (At whole start done) (if condition then first >>= next else pure other >>= next) Q :=
  Keeps.bindOr (F := At whole start) (head whole done) empty tail

theorem optional {reader : Reader A} (each : Reads start reader leaves fun _ => start) :
    Reads start (optional reader) (fun found => found.elim [] leaves) fun _ => start := by
  intro whole done
  refine (each whole done).optional.imp fun found tokens after => ?_
  cases found with
  | none => simpa using after
  | some result => exact after

theorem many {item : Reader A} (each : Reads start item leaves fun _ => start) :
    Reads start (Reader.many item) (fun found => found.flatMap leaves) fun _ => start := by
  have go (fuel : Nat) : Reads start (Reader.many.go item fuel) (fun found => found.flatMap leaves)
      fun _ => start := by
    induction fuel with
    | zero => exact fun whole done => .pure fun _ before => by simpa using before
    | succ fuel ih =>
      intro whole done
      unfold Reader.many.go
      refine .look (fun _ => rfl) fun _ => each.optional.bind fun found => ?_
      cases found with
      | none => exact .pure fun _ before => by simpa using before
      | some first =>
        refine .look (fun _ => rfl) fun _ => .ite (fun _ => ?_) fun _ => ?_
        · exact ih.bind fun others => .pure fun _ before => by simpa using before
        · exact .pure fun _ before => by simpa using before
  exact fun whole done => .look (fun _ => rfl) fun _ => go _ whole done

end Reads

/-- What has been written counts towards what a result is to hold. -/
theorem Keeps.wrote {A : Type} {leaves : A → List Leaf} {finish : A → Side}
    {whole done before : List Leaf} {side : Side} {result : A} (same : before = done ++ leaves result)
    (here : side = finish result) :
    Keeps (At whole side before) (Pure.pure result : Reader A) fun result =>
      At whole (finish result) (done ++ leaves result) :=
  .pure fun _ h => by rw [← here, ← same]; exact h

theorem Reads.whole {A : Type} {start : Side} {reader : Reader A} {leaves : A → List Leaf}
    {finish : A → Side} (each : Reads start reader leaves finish) {tokens : List Token} {result : A}
    (tight : ∀ token ∈ tokens, token.isTight = true)
    (read : Reader.whole reader tokens = some result) : start.view tokens = leaves result := by
  simp only [Reader.whole, Option.bind_eq_bind, Option.bind_eq_some_iff] at read
  rcases read with ⟨⟨found, rest⟩, run, ends⟩
  split at ends
  next empty =>
    cases ends
    cases List.isEmpty_iff.1 empty
    simpa using (each (start.view tokens) [] tokens found [] ⟨tight, rfl⟩ run).split
  next => exact absurd ends (by simp)

open Reader

theorem At.take {whole done : List Leaf} {token : Token} {rest : List Token}
    (here : At whole .inside done (token :: rest)) :
    At whole .outside (done ++ [.text token.text]) rest :=
  ⟨fun later mem => here.tight later (by simp [mem]), by simp [here.split, Side.view]⟩

theorem At.enter {whole done : List Leaf} {token : Token} {rest : List Token}
    (here : At whole .outside done (token :: rest)) :
    At whole .inside (done ++ token.gap) (token :: rest) :=
  ⟨here.tight, by simp [here.split, Side.view, Token.leaves]⟩

theorem gap_reads : Reads .outside gap id fun _ => .inside := by
  intro whole done tokens result rest before run
  cases tokens with
  | nil =>
    obtain ⟨rfl, rfl⟩ : [] = result ∧ [] = rest := by simpa [gap] using run
    exact ⟨before.tight, by simpa [Side.view] using before.split⟩
  | cons token tokens =>
    obtain ⟨rfl, rfl⟩ : token.gap = result ∧ token :: tokens = rest := by simpa [gap] using run
    exact before.enter

theorem tokenIs_text {text : String} {token : Token} (is : tokenIs text token = true) :
    token.text = text := by
  simp only [tokenIs, Bool.and_eq_true, beq_iff_eq] at is
  exact is.2

theorem take_reads {A : Type} {reader : Reader A} {leaves : A → List Leaf}
    (takes : ∀ tokens result rest, reader.run tokens = some (result, rest) →
      ∃ token, tokens = token :: rest ∧ leaves result = [.text token.text]) :
    Reads .inside reader leaves fun _ => .outside := by
  intro whole done tokens result rest before run
  rcases takes tokens result rest run with ⟨token, rfl, exact⟩
  rw [exact]
  exact before.take

theorem word_reads (text : String) : Reads .inside (word text) id fun _ => .outside := by
  apply take_reads
  intro tokens result rest run
  cases tokens with
  | nil => cases run
  | cons token tokens =>
    by_cases is : tokenIs text token = true
    · simp [word, atWord, skip, is] at run
      exact ⟨token, by simp [run.2], by simp [← run.1, tokenIs_text is]⟩
    · have fails : (word text).run (token :: tokens) =
          StateT.run (failure : Reader (List Leaf)) (token :: tokens) := by simp [word, atWord, is]
      rw [fails] at run
      cases run

theorem sort?_ne_some {sort : TokenSort} {token : Token} {tokens : List Token}
    {found : String × List Token} (other : token.sort ≠ sort) :
    (sort? sort).run (token :: tokens) ≠ some found := by
  have fails : (sort? sort).run (token :: tokens) =
      StateT.run (failure : Reader String) (token :: tokens) := by simp [sort?, peek, other]
  rw [fails]
  rintro ⟨⟩

theorem sort?_reads (sort : TokenSort) :
    Reads .inside (sort? sort) (fun text => [.text text]) fun _ => .outside := by
  apply take_reads
  intro tokens result rest run
  cases tokens with
  | nil => cases run
  | cons token tokens =>
    by_cases is : token.sort = sort
    · simp [sort?, peek, skip, is] at run
      exact ⟨token, by simp [run.2], by simp [← run.1]⟩
    · exact absurd run (sort?_ne_some is)

theorem mark_reads (text : String) : Reads .outside (mark text) id fun _ => .outside :=
  fun _ _ => gap_reads.bind fun _ => (word_reads text).bind fun _ => .wrote (by simp) rfl

theorem sign_reads (text : String) : Reads .outside (sign text) id fun _ => .inside :=
  fun _ _ => (mark_reads text).bind fun _ => gap_reads.bind fun _ => .wrote (by simp) rfl

theorem opening_reads (text : String) : Reads .inside (opening text) id fun _ => .inside :=
  fun _ _ => (word_reads text).bind fun _ => gap_reads.bind fun _ => .wrote (by simp) rfl

theorem openingOf_reads (texts : List String) :
    Reads .inside (openingOf texts) id fun _ => .inside := by
  intro whole done tokens result rest before run
  cases tokens with
  | nil => cases run
  | cons token tokens =>
    have rest : Keeps (At whole .outside (done ++ [.text token.text]))
        (do return Leaf.text token.text :: (← gap)) fun result =>
          At whole .inside (done ++ id result) :=
      gap_reads.bind fun _ => .wrote (by simp) rfl
    change (if texts.any (tokenIs · token) = true then
      (do skip; return .text token.text :: (← gap)) else failure : Reader _).run _ = _ at run
    split at run
    · exact rest tokens _ _ before.take run
    · cases run

theorem signOf_reads (texts : List String) : Reads .outside (signOf texts) id fun _ => .inside :=
  fun _ _ => gap_reads.bind fun _ => (openingOf_reads texts).bind fun _ => .wrote (by simp) rfl

theorem identifier_reads :
    Reads .inside identifier (fun id => [.text id.text]) fun _ => .outside := by
  intro whole done
  refine (sort?_reads .name).bind fun text => .ite (fun _ => .failure) fun _ => ?_
  cases spelled : Identifier.ofString text with
  | ok id => exact .wrote (by rw [Identifier.text_of_ofString spelled]) rfl
  | error => exact .failure

theorem name_reads : ReadsNode Reader.name :=
  fun _ _ => identifier_reads.bind fun _ => .wrote (by simp) rfl

theorem constant_reads : ReadsNode constant := by
  intro whole done
  refine .test (fun _ => rfl) ((sort?_reads .name).bind fun text => ?_) .failure
  cases spelled : Identifier.ofString text with
  | ok id => exact .wrote (by simp [Identifier.text_of_ofString spelled]) rfl
  | error => exact .failure

theorem foldl_leaves (kind : Kind) (first : Node) (others : List (List Leaf × Node)) :
    (others.foldl (fun left (joint, right) => .plain kind [left, .glue joint, right]) first).leaves =
      first.leaves ++ others.flatMap fun item => item.1 ++ item.2.leaves := by
  induction others generalizing first with
  | nil => simp
  | cons item rest ih => simp [ih]

theorem chain_reads {kind : Kind} {operator : Reader (List Leaf)} {operand : Reader Node}
    (joint : Reads .outside operator id fun _ => .inside)
    (each : ReadsNode operand) : ReadsNode (chain kind operator operand) := by
  intro whole done
  have others : Reads .outside (many do let joint ← operator; return (joint, ← operand))
      (fun found => found.flatMap fun item => item.1 ++ item.2.leaves) fun _ => .outside :=
    .many fun _ _ => joint.bind fun _ => each.bind fun _ => .wrote (by simp) rfl
  exact each.bind fun first => others.bind fun found => .wrote (by simp [foldl_leaves]) rfl

theorem sort?_reads_tight {sort : TokenSort} (tight : sort = .literalText ∨ sort = .literalEnd) :
    Reads .outside (sort? sort) (fun text => [.text text]) fun _ => .outside := by
  intro whole done tokens result rest before run
  cases tokens with
  | nil => cases run
  | cons token tokens =>
    by_cases is : token.sort = sort
    · -- Its gap is not read, so that there must be none.
      have none : token.gap = [] := by
        have here := before.tight token (by simp)
        rcases tight with rfl | rfl <;> simpa [Token.isTight, is] using here
      have entered : At whole .inside done (token :: tokens) := by simpa [none] using before.enter
      exact sort?_reads sort whole done _ _ _ entered run
    · exact absurd run (sort?_ne_some is)

end Grammar

end Graft
