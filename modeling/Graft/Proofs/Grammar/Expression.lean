import Graft.Proofs.Grammar.Part

set_option autoImplicit false

/-!
The rules of expressions give parts, if the rules below them do. Calls come out with arguments that
the grammar allows.
-/
namespace Graft.Grammar

open Reader

theorem name_yields : Yields Reader.name fun node => node.Part ∧ node.isName = true :=
  .step fun _ => .pure ⟨by simp, rfl⟩

theorem constant_yields : Yields Reader.constant Node.Part := by
  refine .step fun _ => .ite (fun _ => .step fun text => ?_) fun _ => .failure
  split
  next => exact .pure (by simp)
  next => exact .failure

theorem opening_yields (text : String) :
    Yields (Reader.opening text) fun leaves => leaves.head? = some (.text text) := by
  refine .bind (P := fun leaves => leaves = [.text text]) ?_ fun leaves exact => ?_
  next => exact .step fun _ => .ite (fun _ => .step fun _ => .pure rfl) fun _ => .failure
  next => exact .step fun _ => .pure (by simp [exact])

theorem sign_yields (text : String) : Yields (Reader.sign text) fun leaves => leaves ≠ [] := by
  have marked : Yields (Reader.mark text) fun leaves => leaves ≠ [] := by
    refine .step fun before => .bind (P := fun leaves => leaves = [.text text]) ?_ fun leaves exact => ?_
    next => exact .step fun _ => .ite (fun _ => .step fun _ => .pure rfl) fun _ => .failure
    next => exact .pure (by simp [exact])
  exact .bind marked fun leaves some => .step fun _ => .pure (by simp [some])

theorem chain_yields {kind : Kind} {operator : Reader (List Leaf)} {operand : Reader Node}
    (simple : kind.isSimple = true) (good : Yields operand Node.Part) :
    Yields (Reader.chain kind operator operand) Node.Part := by
  refine .bind good fun first head => .bind (.many (P := fun item => item.2.Part)
    (.step fun _ => .bind good fun _ h => .pure h)) fun others tail => .pure ?_
  induction others generalizing first with
  | nil => exact head
  | cons item others ih =>
    refine ih _ (.plain simple ?_) fun other mem => tail other (by simp [mem])
    simp [head, tail item]

section

variable {rules : Rules} (good : ∀ goal, Yields (rules goal) Node.Part)

include good

theorem starred_yields : Yields (starred rules) fun node => node.Part ∧ node.isA .starred = true :=
  .step fun _ => .bind (good _) fun _ h => .pure ⟨.plain rfl (by simp [h]), rfl⟩

theorem named_yields : Yields (named rules) Node.Part := by
  refine .step fun _ => .step fun _ => .ite (fun _ => ?_) fun _ => good _
  exact .bind name_yields fun _ target => .step fun _ => .bind (good _) fun _ h =>
    .pure (.plain rfl (by simp [target.1, h]))

theorem starOr_yields {reader : Reader Node} (other : Yields reader Node.Part) :
    Yields (starOr rules reader) Node.Part :=
  .step fun _ => .ite (fun _ => (starred_yields good).imp fun _ h => h.1) fun _ => other

omit good in
theorem moreItems_yields {item : Reader Node} (each : Yields item Node.Part) :
    Yields (moreItems item) fun nodes => ∀ node ∈ nodes, node.Part := by
  refine .bind (.many (P := fun nodes => ∀ node ∈ nodes, node.Part)
    (.step fun _ => .bind each fun _ h => .pure (by simp [h]))) fun others parts =>
      .step fun last => .pure fun node mem => ?_
  simp only [List.mem_append, List.mem_flatten] at mem
  obtain ⟨nodes, among, mem⟩ | mem := mem
  next => exact parts nodes among node mem
  next => cases last <;> simp_all

omit good in
theorem itemsOrTuple_yields {item : Reader Node} (each : Yields item Node.Part) :
    Yields (itemsOrTuple item) Node.Part := by
  refine .bind each fun first head => .bind (moreItems_yields each) fun others tail => .pure ?_
  split
  next => exact head
  next => exact .plain rfl (by simpa [head] using tail)

theorem starExpressions_yields : Yields (starExpressions rules) Node.Part :=
  itemsOrTuple_yields (starOr_yields good (good _))

theorem yielding_yields : Yields (yielding rules) Node.Part := by
  refine .step fun _ => .step fun _ => .ite (fun _ => ?_) fun _ => ?_
  next => exact .step fun _ => .bind (good _) fun _ h => .pure (.plain rfl (by simp [h]))
  next =>
    refine .bind (.optional (P := fun found => found.2.Part)
      (.step fun _ => .bind (starExpressions_yields good) fun _ h => .pure h)) fun found value => ?_
    cases found with
    | none => exact .pure (.plain rfl (by simp))
    | some found => exact .pure (.plain rfl (by simp [value found rfl]))

theorem yieldOr_yields {reader : Reader Node} (other : Yields reader Node.Part) :
    Yields (yieldOr rules reader) Node.Part :=
  .step fun _ => .ite (fun _ => yielding_yields good) fun _ => other

omit good in
theorem checked_yields {accept : Node → Bool} {reader : Reader Node}
    (each : Yields reader Node.Part) : Yields (checked accept reader) Node.Part :=
  .bind each fun _ h => .ite (fun _ => .pure h) fun _ => .failure

theorem starTarget_yields : Yields (starTarget rules) Node.Part := by
  refine checked_yields (.step fun _ => .ite (fun _ => ?_) fun _ => good _)
  exact .step fun _ => .bind (good _) fun _ h => .pure (.plain rfl (by simp [h]))

theorem starTargets_yields : Yields (starTargets rules) Node.Part :=
  itemsOrTuple_yields (starTarget_yields good)

theorem condition_yields : Yields (condition rules) fun nodes => ∀ node ∈ nodes, node.Part :=
  .step fun _ => .bind (good _) fun _ h => .pure (by simp [h])

theorem clauseParts_yields : Yields (clauseParts rules) fun nodes => ∀ node ∈ nodes, node.Part := by
  refine .step fun _ => .step fun _ => .bind (starTargets_yields good) fun _ target =>
    .step fun _ => .bind (good _) fun _ iterable =>
      .bind (.many (condition_yields good)) fun conditions tests => .pure ?_
  have together : (Node.plain .conditions conditions.flatten).Part := by
    refine .plain rfl fun node mem => ?_
    obtain ⟨nodes, among, mem⟩ := List.mem_flatten.1 mem
    exact tests nodes among node mem
  simp [target, iterable, together]

omit good in
theorem nest_part (inner : List (List Node)) (parts : ∀ nodes ∈ inner, ∀ node ∈ nodes, node.Part) :
    (nest inner).Part := by
  induction inner with
  | nil => exact .absent
  | cons nodes inner ih =>
    have rest := ih fun others mem => parts others (by simp [mem])
    refine .plain rfl fun node mem => ?_
    obtain mem | rfl := List.mem_append.1 mem |>.imp_right List.mem_singleton.1
    next => exact parts nodes (by simp) node mem
    next => exact rest

theorem clauses_yields : Yields (clauses rules) fun nodes => ∀ node ∈ nodes, node.Part := by
  refine .bind (clauseParts_yields good) fun first head =>
    .bind (.many (clauseParts_yields good)) fun others tail => .pure fun node mem => ?_
  obtain mem | rfl := List.mem_append.1 mem |>.imp_right List.mem_singleton.1
  next => exact head node mem
  next => exact nest_part others tail

theorem comprehension_yields {kind : Kind} {before : List Leaf} {item : Node}
    {after : Reader (List Leaf)} (kinds : kind = .generator ∨ kind = .comprehension)
    (part : item.Part) :
    Yields (comprehension rules kind before item after) fun node =>
      node.wellFormed = true ∧ node.isStatement = false ∧ node.IsTidy ∧ node.isA kind = true := by
  refine .bind (clauses_yields good) fun nodes parts => .step fun closing => .pure ?_
  have each : ∀ node ∈ Node.glue before :: item :: nodes ++ [.glue closing], node.Part := by
    simpa [part, or_imp, forall_and] using parts
  refine ⟨(Node.wellFormed_branch _ _ _).2 ⟨?_, fun node mem => (each node mem).wellFormed⟩, ?_,
    Node.isTidy_branch ?_ {} fun node mem => (each node mem).isTidy, ?_⟩
  next => obtain rfl | rfl := kinds <;> simp only [Shape.fits, Shape.hasRoles, Node.Part.apart each, Bool.or_true, Bool.and_true]
  next => obtain rfl | rfl := kinds <;> rfl
  next => obtain rfl | rfl := kinds <;> decide
  next => obtain rfl | rfl := kinds <;> rfl

theorem bracketComprehension_yields {before : List Leaf} {item : Node} {after : Reader (List Leaf)}
    (part : item.Part) : Yields (comprehension rules .comprehension before item after) Node.Part :=
  (comprehension_yields good (.inr rfl) part).imp fun node h =>
    ⟨h.1, h.2.1, by cases node <;> simp_all [Node.isBareGenerator, Node.isA], h.2.2.1⟩

omit good in
theorem bracketed_yields {kind : Kind} {before : List Leaf} {first : Node} {item : Reader Node}
    {close : String} (simple : kind.isSimple = true) (head : first.Part)
    (each : Yields item Node.Part) : Yields (bracketed kind before first item close) Node.Part :=
  .bind (moreItems_yields each) fun _ tail => .step fun _ =>
    .pure (.plain simple (by simpa [head, or_imp, forall_and] using tail))

omit good in
theorem wrapped_yields {value : Node} {before : List Leaf} {text : String} (part : value.Part)
    (around : before.head? = some (.text text)) :
    Yields (do return value.wrap before (← mark ")")) Node.Part :=
  .step fun _ => .pure (.wrapped part.wellFormed part.isStatement part.isTidy (by rintro rfl; simp at around))

theorem parenthesised_yields : Yields (parenthesised rules) Node.Part := by
  have items := starOr_yields good (named_yields good)
  refine .bind (opening_yields "(") fun before around => .step fun _ => .ite (fun _ => ?_) fun _ =>
    .step fun _ => .ite (fun _ => ?_) fun _ => ?_
  next => exact .step fun _ => .pure (.branch rfl (by simp))
  next => exact .bind (yielding_yields good) fun _ value => wrapped_yields value around
  refine .bind items fun first head => .step fun _ => .ite (fun _ => ?_) fun _ =>
    .step fun _ => .ite (fun _ => ?_) fun _ => .ite (fun _ => .failure) fun _ => ?_
  next =>
    refine .ite (fun _ => .failure) fun _ => .bind (comprehension_yields good (.inl rfl)
      (.plain rfl (by simp [head]))) fun value h => .step fun _ => .pure (.wrapped h.1 h.2.1 h.2.2.1 ?_)
    rintro rfl
    simp at around
  next =>
    exact .bind (moreItems_yields items) fun _ tail => .step fun _ =>
      .pure (.branch rfl (by simpa [head] using tail))
  next => exact wrapped_yields head around

theorem listDisplay_yields : Yields (listDisplay rules) Node.Part := by
  have items := starOr_yields good (named_yields good)
  refine .step fun before => .step fun _ => .ite (fun _ => ?_) fun _ => .bind items fun first head =>
    .step fun _ => .ite (fun _ => .ite (fun _ => .failure) fun _ => ?_) fun _ => ?_
  next => exact .step fun _ => .pure (.plain rfl (by simp))
  next => exact bracketComprehension_yields good (.plain rfl (by simp [head]))
  next => exact bracketed_yields rfl head items

omit good in
theorem entryComma_yields : Yields entryComma Node.Part :=
  .step fun _ => .pure (.glue _)

theorem spread_yields : Yields (spread rules) Node.Part :=
  .step fun _ => .bind (good _) fun _ value => .bind entryComma_yields fun _ comma =>
    .pure (.plain rfl (by simp [value, comma]))

theorem dictEntries_yields (fuel : Nat) :
    Yields (dictEntries rules fuel) fun nodes => ∀ node ∈ nodes, node.Part := by
  induction fuel with
  | zero => exact .failure
  | succ fuel ih =>
    have rest (entry : Node) (head : entry.Part) :
        Yields (if endsOpen [entry] then return [entry] else
          do return entry :: (← dictEntries rules fuel)) fun nodes => ∀ node ∈ nodes, node.Part :=
      .ite (fun _ => .pure (by simp [head])) fun _ => .bind ih fun _ tail =>
        .pure (by simpa [head] using tail)
    refine .step fun _ => .ite (fun _ => .pure (by simp)) fun _ => .step fun _ =>
      .ite (fun _ => .bind (spread_yields good) rest) fun _ => ?_
    exact .bind (good _) fun _ key => .step fun _ => .bind (good _) fun _ value =>
      .bind entryComma_yields fun _ comma => .bind (.pure (P := Node.Part)
        (.plain rfl (by simp [key, value, comma]))) rest

omit good in
theorem dictOf_yields {before : List Leaf} {entries : List Node} (parts : ∀ node ∈ entries, node.Part) :
    Yields (dictOf before entries) Node.Part := by
  have together : (Node.plain .entries entries).Part := .plain rfl parts
  exact .ite (fun _ => .step fun _ => .pure (.plain rfl (by simp [together])))
    fun _ => .step fun _ => .pure (.plain rfl (by simp [together]))

theorem restOfDict_yields : Yields (restOfDict rules) fun nodes => ∀ node ∈ nodes, node.Part :=
  .step fun _ => dictEntries_yields good _

theorem setOf_yields {before : List Leaf} {first : Node} (head : first.Part) :
    Yields (braced.setOf rules before first) Node.Part :=
  .step fun _ => .ite (fun _ => bracketComprehension_yields good (.plain rfl (by simp [head]))) fun _ =>
    bracketed_yields rfl head (starOr_yields good (named_yields good))

theorem braced_yields : Yields (braced rules) Node.Part := by
  refine .step fun before => .step fun _ => .step fun _ => .ite (fun _ => ?_) fun _ =>
    .step fun _ => .ite (fun _ => ?_) fun _ => ?_
  next => exact .bind (restOfDict_yields good) fun _ entries => dictOf_yields entries
  next =>
    exact .bind (starred_yields good) fun _ head =>
      bracketed_yields rfl head.1 (starOr_yields good (named_yields good))
  refine .bind (named_yields good) fun first head => .ite (fun _ => setOf_yields good head) fun _ =>
    .step fun _ => .ite (fun _ => ?_) fun _ => setOf_yields good head
  refine .step fun colon => .bind (good _) fun value part => .step fun _ => .ite (fun _ => ?_) fun _ => ?_
  next => exact bracketComprehension_yields good (.plain rfl (by simp [head, part]))
  refine .bind entryComma_yields fun comma last => ?_
  have entry : (Node.plain .entry [first, .glue colon, value, comma]).Part :=
    .plain rfl (by simp [head, part, last])
  refine .ite (fun _ => .bind (.pure (P := fun nodes => nodes = []) rfl) fun others none => ?_)
    fun _ => .bind (restOfDict_yields good) fun others tail => ?_
  next => exact dictOf_yields (by simpa [none] using entry)
  next => exact dictOf_yields (by simpa [entry] using tail)

theorem literalPart_yields : Yields (literalPart rules) Node.Part :=
  .step fun _ => .ite (fun _ => .step fun _ => .pure (.text _)) fun _ => good _

theorem field_yields : Yields (field rules) Node.Part := by
  refine .step fun before => .bind (yieldOr_yields good (starExpressions_yields good))
    fun value part => .step fun _ => .step fun _ => .bind
      (.optional (P := fun nodes => ∀ node ∈ nodes, node.Part) (.step fun _ =>
        .bind (.many (literalPart_yields good)) fun _ parts => .pure (by simpa using parts)))
      fun format parts => .step fun closing => .pure (.plain rfl ?_)
  cases format with
  | none => simp [part]
  | some nodes => simpa [part, or_imp, forall_and] using parts nodes rfl

theorem stringLiteral_yields : Yields (stringLiteral rules) Node.Part := by
  refine .step fun _ => .ite (fun _ => .step fun _ => .pure (.plain rfl (by simp))) fun _ => ?_
  exact .step fun _ => .bind (.many (literalPart_yields good)) fun _ parts => .step fun _ =>
    .pure (.plain rfl (by simpa [or_imp, forall_and] using parts))

omit good in
theorem joinStrings_part (first : Node) (others : List (List Leaf × Node)) (head : first.Part)
    (tail : ∀ other ∈ others, other.2.Part) : (joinStrings first others).Part := by
  induction others generalizing first with
  | nil => exact head
  | cons other others ih =>
    have rest := ih other.2 (tail other (by simp)) fun next mem => tail next (by simp [mem])
    exact .plain rfl (by simp [head, rest])

theorem strings_yields : Yields (strings rules) Node.Part :=
  .bind (stringLiteral_yields good) fun _ head =>
    .bind (.many (P := fun other => other.2.Part)
      (.step fun _ => .bind (stringLiteral_yields good) fun _ part => .pure part))
      fun _ tail => .pure (joinStrings_part _ _ head tail)

theorem atom_yields : Yields (atom rules) Node.Part := by
  refine .step fun _ => .ite (fun _ => parenthesised_yields good) fun _ =>
    .step fun _ => .ite (fun _ => listDisplay_yields good) fun _ =>
    .step fun _ => .ite (fun _ => braced_yields good) fun _ =>
    .step fun _ => .ite (fun _ => ?_) fun _ =>
    .step fun _ => .ite (fun _ => .step fun _ => .pure (.plain rfl (by simp))) fun _ =>
    .step fun _ => .step fun _ => .ite (fun _ => strings_yields good) fun _ =>
    constant_yields.orElse (name_yields.imp fun _ h => h.1)
  refine .step fun leaves => .pure (.plain rfl fun node mem => ?_)
  obtain ⟨leaf, -, rfl⟩ := List.mem_map.1 mem
  exact .leaf leaf

end

end Graft.Grammar
