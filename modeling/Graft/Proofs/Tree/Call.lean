import Graft.Proofs.Tree.Shape

set_option autoImplicit false

/-!
Calls before and after they are given a configuration. Whether arguments are in order, and whether
they hold a configuration, is seen from their outlines.
-/
namespace Graft

open Node

namespace Argument

/-- An argument without its value and its comma. Of the value it keeps whether it is a generator that
has no parentheses. -/
def outline (argument : Argument) : Argument where
  star := argument.star
  keyword := argument.keyword
  value := if argument.isGenerator then .plain .generator [] else .absent

@[simp] theorem outline_star (argument : Argument) : argument.outline.star = argument.star := rfl

@[simp] theorem outline_keyword (argument : Argument) :
    argument.outline.keyword = argument.keyword := rfl

@[simp] theorem outline_isPositional (argument : Argument) :
    argument.outline.isPositional = argument.isPositional := rfl

@[simp] theorem outline_isStarred (argument : Argument) :
    argument.outline.isStarred = argument.isStarred := rfl

@[simp] theorem outline_isMapping (argument : Argument) :
    argument.outline.isMapping = argument.isMapping := rfl

@[simp] theorem outline_hasKeyword (word : String) (argument : Argument) :
    argument.outline.hasKeyword word = argument.hasKeyword word := rfl

@[simp] theorem outline_isGenerator (argument : Argument) :
    argument.outline.isGenerator = argument.isGenerator := by
  unfold outline
  cases found : argument.isGenerator <;> rfl

@[simp] theorem outline_mayPrecede (first later : Argument) :
    first.outline.mayPrecede later.outline = first.mayPrecede later := rfl

attribute [local simp] areOrdered in
theorem areOrdered_map_outline (arguments : List Argument) :
    areOrdered (arguments.map outline) = areOrdered arguments := by
  induction arguments with
  | nil => rfl
  | cons first rest ih => simp [ih, List.all_map, Function.comp_def]

/-- Arguments are in order if the positional ones come first and no sequence or mapping is spread. -/
theorem areOrdered_append {positional others : List Argument}
    (first : ∀ argument ∈ positional, argument.isPositional = true)
    (later : ∀ argument ∈ others, argument.isPositional = false ∧ argument.isStarred = false) :
    areOrdered (positional ++ others) = true := by
  have keywords (others : List Argument)
      (later : ∀ argument ∈ others, argument.isPositional = false ∧ argument.isStarred = false) :
      areOrdered others = true := by
    induction others with
    | nil => rfl
    | cons first rest ih =>
      simp only [areOrdered, Bool.and_eq_true, List.all_eq_true]
      refine ⟨fun argument mem => ?_, ih fun argument mem => later argument (by simp [mem])⟩
      have kind := later argument (by simp [mem])
      simp [mayPrecede, kind.1, kind.2]
  induction positional with
  | nil => exact keywords others later
  | cons head rest ih =>
    simp only [List.cons_append, areOrdered, Bool.and_eq_true, List.all_eq_true]
    refine ⟨fun argument mem => ?_, ih fun argument mem => first argument (by simp [mem])⟩
    have plain := first head (by simp)
    simp only [isPositional, Bool.and_eq_true, Option.isNone_iff_eq_none, List.isEmpty_iff] at plain
    have unmapped : head.isMapping = false := by simp [isMapping, plain.2]
    simp [mayPrecede, plain.1, unmapped]

theorem not_isPositional_of_areOrdered {first : Argument} {rest : List Argument}
    (ordered : areOrdered (first :: rest) = true) (plain : first.isPositional = false)
    (apart : first.isStarred = false) : ∀ argument ∈ rest, argument.isPositional = false := by
  intro argument mem
  simp only [areOrdered, Bool.and_eq_true, List.all_eq_true] at ordered
  have before := ordered.1 argument mem
  have keyword : first.keyword.isNone = false := by
    have star : first.star.isEmpty = true := by simpa [isStarred] using apart
    simpa [isPositional, star] using plain
  cases lone : argument.isPositional with
  | false => rfl
  | true => simp [mayPrecede, lone, keyword] at before

theorem isPositional_of_mem_takeWhile {arguments : List Argument} {argument : Argument}
    (mem : argument ∈ arguments.takeWhile isPositional) : argument.isPositional = true :=
  List.all_eq_true.1 List.all_takeWhile argument mem

/-- In ordered arguments without stars, all that follow the first keyword have one. -/
theorem not_isPositional_of_mem_dropWhile {arguments : List Argument}
    (ordered : areOrdered arguments = true)
    (plain : ∀ argument ∈ arguments, argument.isStarred = false) :
    ∀ argument ∈ arguments.dropWhile isPositional, argument.isPositional = false := by
  induction arguments with
  | nil => simp
  | cons first rest ih =>
    cases lone : first.isPositional with
    | true =>
      rw [List.dropWhile_cons_of_pos lone]
      refine ih ?_ fun argument mem => plain argument (by simp [mem])
      simp only [areOrdered, Bool.and_eq_true] at ordered
      exact ordered.2
    | false =>
      rw [List.dropWhile_cons_of_neg (by simp [lone])]
      simp only [List.mem_cons, forall_eq_or_imp]
      exact ⟨lone, not_isPositional_of_areOrdered ordered lone (plain first (by simp))⟩

theorem areOrdered_of_areGrammatical {arguments : List Argument}
    (grammatical : areGrammatical arguments = true) : areOrdered arguments = true := by
  unfold areGrammatical at grammatical
  rw [Bool.and_eq_true] at grammatical
  exact grammatical.1

theorem areGrammatical_iff {arguments : List Argument} (several : 2 ≤ arguments.length) :
    areGrammatical arguments = true ↔
      areOrdered arguments = true ∧ ∀ argument ∈ arguments, argument.isGenerator = false := by
  unfold areGrammatical
  split
  next => simp at several
  next => simp [List.all_eq_true]

/-- A view of arguments that does not show their commas. -/
def IgnoresComma {B : Type} (view : Argument → B) : Prop :=
  ∀ argument comma, view { argument with comma } = view argument

theorem outline_ignoresComma : IgnoresComma outline := fun _ _ => rfl

theorem withCommas_cons (first : Argument) {rest : List Argument} (some : rest ≠ []) :
    withCommas (first :: rest) =
      (if first.comma.isEmpty then { first with comma := [.text ", "] } else first) :: withCommas rest := by
  simp [withCommas]

theorem IgnoresComma.map_withCommas {B : Type} {view : Argument → B} (ignores : IgnoresComma view)
    (arguments : List Argument) : (withCommas arguments).map view = arguments.map view := by
  induction arguments with
  | nil => rfl
  | cons first rest ih =>
    cases rest with
    | nil => rfl
    | cons second rest =>
      rw [withCommas_cons first (List.cons_ne_nil _ _), List.map_cons, ih, List.map_cons]
      congr 1
      split
      next => exact ignores first _
      next => rfl

@[simp] theorem length_withCommas (arguments : List Argument) :
    (withCommas arguments).length = arguments.length := by
  simpa using congrArg List.length (outline_ignoresComma.map_withCommas arguments)

theorem areSeparated_withCommas (arguments : List Argument) : areSeparated (withCommas arguments) = true := by
  unfold areSeparated
  induction arguments with
  | nil => rfl
  | cons first rest ih =>
    cases rest with
    | nil => rfl
    | cons second others =>
      obtain ⟨head, tail, same⟩ : ∃ head tail, withCommas (second :: others) = head :: tail :=
        List.exists_cons_of_length_eq_add_one (length_withCommas (second :: others))
      rw [withCommas_cons first (List.cons_ne_nil _ _), same, List.dropLast_cons_cons, List.all_cons, ← same, ih,
        Bool.and_true]
      split <;> simp_all

theorem withCommas_of_areSeparated {arguments : List Argument} (separated : areSeparated arguments = true) :
    withCommas arguments = arguments := by
  induction arguments with
  | nil => rfl
  | cons first rest ih =>
    cases rest with
    | nil => rfl
    | cons second others =>
      rw [areSeparated, List.dropLast_cons_cons, List.all_cons, Bool.and_eq_true, Bool.not_eq_true'] at separated
      rw [withCommas_cons first (List.cons_ne_nil _ _), ih separated.2, if_neg (by simp [separated.1])]

theorem getElem?_withCommas {arguments : List Argument} {argument : Argument} {i : Nat}
    (here : arguments[i]? = some argument) (owned : argument.comma.isEmpty = false) :
    (withCommas arguments)[i]? = some argument := by
  induction arguments generalizing i with
  | nil => exact absurd here (by simp)
  | cons first rest ih =>
    cases rest with
    | nil => exact here
    | cons second rest =>
      rw [withCommas_cons first (List.cons_ne_nil _ _)]
      cases i with
      | zero =>
        obtain rfl := Option.some.inj here
        simp [owned]
      | succ i => exact ih here

theorem comma_of_areSeparated {arguments : List Argument} (separated : areSeparated arguments = true)
    {argument : Argument} {i : Nat} (here : arguments[i]? = some argument)
    (next : i + 1 < arguments.length) : argument.comma.isEmpty = false := by
  have mem : argument ∈ arguments.dropLast := by
    refine List.mem_of_getElem? (i := i) ?_
    rw [List.getElem?_dropLast, if_pos (by omega), here]
  simpa using List.all_eq_true.1 separated argument mem

theorem keywordOf_keywordNode (keyword : Option (Identifier × List Leaf)) :
    keywordOf (keywordNode keyword) = keyword := by
  cases keyword with
  | none => rfl
  | some keyword => simp [keywordNode, keywordOf, Node.plain]

@[simp] theorem ofNode?_toNode (argument : Argument) : ofNode? argument.toNode = some argument := by
  simp [toNode, ofNode?, Node.plain, keywordOf_keywordNode]

theorem filterMap_ofNode?_toNode (arguments : List Argument) :
    (arguments.map toNode).filterMap ofNode? = arguments := by
  induction arguments with
  | nil => rfl
  | cons first rest ih => simp [ih]

theorem keywordNode_keywordOf {node : Node} (wellFormed : node.wellFormed = true)
    (word : node.isAbsent = true ∨ node.isA .keyword = true) (bare : node.isBare = true) :
    keywordNode (keywordOf node) = node := by
  obtain absent | is := word
  next =>
    unfold isAbsent at absent
    split at absent
    next parens =>
      obtain rfl : parens = {} := parens_of_isBare bare
      rfl
    next => exact absurd absent (by simp)
  next =>
    obtain ⟨parens, parts, rfl⟩ := exists_branch is
    obtain rfl : parens = {} := parens_of_isBare bare
    obtain ⟨fits, each⟩ := (wellFormed_branch _ _ _).1 wellFormed
    obtain ⟨name, equals, rfl, named, glued, bares⟩ := Shape.hasRoles_keyword (Shape.hasRoles_of_fits fits)
    simp only [List.all_cons, List.all_nil, Bool.and_true, Bool.and_eq_true] at bares
    obtain ⟨around, id, rfl⟩ := exists_name named
    obtain rfl : around = {} := parens_of_isBare bares.1
    rw [keywordOf, keywordNode, glue_leaves (each equals (by simp)) glued bares.2]
    rfl

theorem toNode_of_ofNode? {node : Node} (wellFormed : node.wellFormed = true) (bare : node.isBare = true)
    {argument : Argument} (read : ofNode? node = some argument) : argument.toNode = node := by
  unfold ofNode? at read
  split at read
  next parens star keyword value comma gap =>
    obtain rfl := Option.some.inj read
    obtain rfl : parens = {} := parens_of_isBare bare
    obtain ⟨fits, each⟩ := (wellFormed_branch _ _ _).1 wellFormed
    obtain ⟨_, _, _, _, _, same, starred, word, commas, gaps, bares⟩ :=
      Shape.hasRoles_argument (Shape.hasRoles_of_fits fits)
    simp only [List.cons.injEq, and_true] at same
    obtain ⟨rfl, rfl, rfl, rfl, rfl⟩ := same
    simp only [List.all_cons, List.all_nil, Bool.and_true, Bool.and_eq_true] at bares
    obtain ⟨bareStar, bareWord, bareComma, bareGap⟩ := bares
    simp only [toNode, plain]
    rw [glue_leaves (each star (by simp)) starred bareStar,
      keywordNode_keywordOf (each keyword (by simp)) word bareWord,
      glue_leaves (each comma (by simp)) commas bareComma, glue_leaves (each gap (by simp)) gaps bareGap]
  next => exact absurd read (by simp)

end Argument

namespace Call

open Argument

theorem attach_eq (call : Call) (config : Node) :
    call.attach config = { call with arguments := (call.attach config).arguments } := by
  simp only [attach]
  split
  next => rfl
  next => split <;> rfl

theorem toNode_attach (call : Call) (config : Node) : (call.attach config).toNode =
    .branch .call call.parens [call.callee, .glue call.opening,
      .plain .arguments ((withCommas (call.attach config).arguments).map Argument.toNode),
      .glue call.closing] := by
  rw [attach_eq]
  rfl

theorem ofNode?_toNode (call : Call) :
    ofNode? call.toNode = some { call with arguments := withCommas call.arguments } := by
  have arguments := filterMap_ofNode?_toNode (withCommas call.arguments)
  rw [List.filterMap_map] at arguments
  simp [toNode, ofNode?, Node.plain, Node.children, arguments]

section

variable {B : Type} {view : Argument → B} (ignores : IgnoresComma view)

include ignores

theorem map_append (arguments : List Argument) (added : Argument) :
    (append arguments added).map view = arguments.map view ++ [view added] := by
  unfold append
  split
  next none => simp [List.getLast?_eq_none_iff.1 none]
  next last found =>
    split
    next => simp
    next =>
      obtain ⟨before, rfl⟩ := List.getLast?_eq_some_iff.1 found
      rw [List.dropLast_concat]
      simp only [List.map_append, List.map_cons, List.map_nil, List.append_assoc]
      rw [ignores last, ignores added]
      rfl

omit ignores in
/-- A call takes its configuration as a keyword where its arguments leave no place for it. -/
def leavesNoPlace (call : Call) : Bool :=
  call.positional.length < configPlace && call.positional.length < call.arguments.length

theorem map_attach_of_leavesNoPlace {call : Call} (closed : call.leavesNoPlace = true)
    (config : Node) : (call.attach config).arguments.map view = call.arguments.map view ++
      [view { keyword := some (configWord, [.text "="]), value := config }] := by
  simp only [leavesNoPlace, Bool.and_eq_true, decide_eq_true_eq] at closed
  simp [attach, closed, map_append ignores]

omit ignores in
/-- The arguments of a call, with placeholders up to the place of the configuration. -/
def padded (call : Call) : List Argument :=
  call.arguments ++ placeholders (configPlace - call.positional.length)

theorem map_attach_of_not_leavesNoPlace {call : Call} (opened : call.leavesNoPlace = false)
    (config : Node) : (call.attach config).arguments.map view =
      (call.padded.take configPlace).map view ++
        view (.ofValue config) :: (call.padded.drop configPlace).map view := by
  have closed : ¬ (call.positional.length < configPlace ∧
      call.positional.length < call.arguments.length) := by
    simpa [leavesNoPlace] using opened
  simp only [attach, if_neg closed, padded]
  split
  next full =>
    rw [map_append ignores, List.take_of_length_le (Nat.le_of_eq full),
      List.drop_eq_nil_of_le (Nat.le_of_eq full), List.map_nil]
  next => rw [List.map_append, List.map_cons]

end

/-- The values of a call with a configuration are those it had, placeholders and the configuration. -/
theorem forall_value_attach {P : Node → Prop} {call : Call} {config : Node}
    (values : ∀ argument ∈ call.arguments, P argument.value) (hole : P (.name {} noneWord))
    (added : P config) : ∀ argument ∈ withCommas (call.attach config).arguments,
      P argument.value := by
  have ignores : IgnoresComma Argument.value := fun _ _ => rfl
  have padded : ∀ argument ∈ call.padded, P argument.value := by
    simp only [Call.padded, List.mem_append, placeholders, List.mem_replicate]
    rintro argument (mem | ⟨-, rfl⟩)
    next => exact values argument mem
    next => exact hole
  suffices every : ∀ value ∈ (call.attach config).arguments.map Argument.value, P value by
    intro argument mem
    refine every _ ?_
    rw [← ignores.map_withCommas]
    exact List.mem_map_of_mem mem
  cases room : call.leavesNoPlace with
  | true =>
    rw [map_attach_of_leavesNoPlace ignores room]
    simpa [or_imp, forall_and] using ⟨values, added⟩
  | false =>
    rw [map_attach_of_not_leavesNoPlace ignores room]
    simp only [List.mem_append, List.mem_cons, List.mem_map]
    rintro value (⟨argument, mem, rfl⟩ | rfl | ⟨argument, mem, rfl⟩)
    next => exact padded argument (List.mem_of_mem_take mem)
    next => exact added
    next => exact padded argument (List.mem_of_mem_drop mem)

theorem two_le_length_padded (call : Call) : configPlace ≤ call.padded.length := by
  have short : call.positional.length ≤ call.arguments.length :=
    (List.takeWhile_sublist _).length_le
  simp only [padded, placeholders, List.length_append, List.length_replicate]
  omega

theorem two_le_length_attach (call : Call) (config : Node) :
    2 ≤ (call.attach config).arguments.length := by
  cases room : call.leavesNoPlace with
  | true =>
    have lengths := congrArg List.length (map_attach_of_leavesNoPlace outline_ignoresComma room config)
    simp only [leavesNoPlace, Bool.and_eq_true, decide_eq_true_eq] at room
    simp only [List.length_append, List.length_map, List.length_singleton] at lengths
    omega
  | false =>
    have lengths := congrArg List.length (map_attach_of_not_leavesNoPlace outline_ignoresComma room config)
    have enough := call.two_le_length_padded
    simp only [List.length_append, List.length_map, List.length_cons, List.length_take,
      List.length_drop, configPlace] at lengths enough
    omega

section

variable {call other : Call}
  (same : call.arguments.map outline = other.arguments.map outline)

include same

theorem length_positional_congr : call.positional.length = other.positional.length := by
  have counted (arguments : List Argument) : (arguments.takeWhile isPositional).length =
      ((arguments.map outline).takeWhile isPositional).length := by
    rw [List.takeWhile_map, List.length_map]
    rfl
  rw [positional, positional, counted call.arguments, same, ← counted]

theorem leavesNoPlace_congr : call.leavesNoPlace = other.leavesNoPlace := by
  have lengths := congrArg List.length same
  rw [List.length_map, List.length_map] at lengths
  unfold leavesNoPlace
  rw [length_positional_congr same, lengths]

theorem any_congr {shows : Argument → Bool} (kept : ∀ argument, shows argument.outline = shows argument) :
    call.arguments.any shows = other.arguments.any shows := by
  have counted (arguments : List Argument) : arguments.any shows = (arguments.map outline).any shows := by
    rw [List.any_map]
    exact congrArg arguments.any (funext fun argument => (kept argument).symm)
  rw [counted call.arguments, same, ← counted]

theorem isConfigured_congr : call.isConfigured = other.isConfigured := by
  unfold isConfigured
  rw [length_positional_congr same, any_congr same (outline_hasKeyword "config")]

theorem hasUnpacking_congr : call.hasUnpacking = other.hasUnpacking :=
  any_congr same outline_isStarred

end

theorem arguments_eq (call : Call) :
    call.arguments = call.positional ++ call.arguments.dropWhile isPositional :=
  List.takeWhile_append_dropWhile.symm

theorem length_positional_le {call : Call} (kept : call.isConfigured = false) :
    call.positional.length ≤ configPlace := by
  simp only [isConfigured, Bool.or_eq_false_iff, decide_eq_false_iff_not] at kept
  exact Nat.le_of_not_lt kept.1

/-- What stands before the configuration where the arguments leave a place for it. -/
def front (call : Call) : List Argument :=
  call.positional ++ placeholders (configPlace - call.positional.length)

theorem length_front {call : Call} (kept : call.isConfigured = false) :
    call.front.length = configPlace := by
  rw [front, placeholders, List.length_append, List.length_replicate]
  exact Nat.add_sub_cancel' (length_positional_le kept)

theorem isPositional_of_mem_front {call : Call} {argument : Argument} (mem : argument ∈ call.front) :
    argument.isPositional = true := by
  rcases List.mem_append.1 mem with own | added
  · exact isPositional_of_mem_takeWhile own
  · rw [(List.mem_replicate.1 added).2]
    rfl

-- Placeholders are only missing behind positional arguments if there are no keywords behind those.
theorem padded_eq {call : Call} (opened : call.leavesNoPlace = false)
    (kept : call.isConfigured = false) :
    call.padded = call.front ++ call.arguments.dropWhile isPositional := by
  have few := length_positional_le kept
  have lengths := congrArg List.length call.arguments_eq
  simp only [leavesNoPlace, Bool.and_eq_false_iff, decide_eq_false_iff_not, Nat.not_lt] at opened
  rw [List.length_append] at lengths
  rcases opened with full | single
  · have none : placeholders (configPlace - call.positional.length) = [] := by
      rw [Nat.sub_eq_zero_of_le full]
      rfl
    rw [padded, front, none, List.append_nil, List.append_nil, ← arguments_eq]
  · have none : call.arguments.dropWhile isPositional = [] := by
      rw [← List.length_eq_zero_iff]
      omega
    have whole := call.arguments_eq
    rw [none, List.append_nil] at whole
    rw [padded, front, none, List.append_nil, ← whole]

theorem map_attach_front {B : Type} {view : Argument → B} (ignores : IgnoresComma view) {call : Call}
    (opened : call.leavesNoPlace = false) (kept : call.isConfigured = false) (config : Node) :
    (call.attach config).arguments.map view = call.front.map view ++
      view (.ofValue config) :: (call.arguments.dropWhile isPositional).map view := by
  rw [map_attach_of_not_leavesNoPlace ignores opened, padded_eq opened kept,
    List.take_left' (length_front kept), List.drop_left' (length_front kept)]

/-- The order of arguments, and where a configuration stands among them. -/
structure Splits (arguments before after : List Argument) : Prop where
  outlines : arguments.map outline = (before ++ after).map outline
  first : ∀ argument ∈ before, argument.isPositional = true
  later : ∀ argument ∈ after, argument.isPositional = false ∧ argument.isStarred = false
  holds : 2 < before.length ∨ after.any (hasKeyword "config") = true

variable {call : Call}

theorem later_of_plain (ordered : areOrdered call.arguments = true)
    (plain : call.hasUnpacking = false) : ∀ argument ∈ call.arguments.dropWhile isPositional,
      argument.isPositional = false ∧ argument.isStarred = false := by
  have single : ∀ argument ∈ call.arguments, argument.isStarred = false := by
    simpa [hasUnpacking] using plain
  exact fun argument mem => ⟨not_isPositional_of_mem_dropWhile ordered single argument mem,
    single argument ((List.dropWhile_sublist _).subset mem)⟩

theorem attach_splits (ordered : areOrdered call.arguments = true) (kept : call.isConfigured = false)
    (plain : call.hasUnpacking = false) {config : Node} (closed : config.isBareGenerator = false) :
    ∃ before after, Splits (call.attach config).arguments before after ∧
      ((∀ argument ∈ before ++ after, argument.isGenerator = false) ↔
        ∀ argument ∈ call.arguments, argument.isGenerator = false) := by
  have later := later_of_plain ordered plain
  have first : ∀ argument ∈ call.positional, argument.isPositional = true :=
    fun argument mem => isPositional_of_mem_takeWhile mem
  have whole := call.arguments_eq
  generalize named : call.arguments.dropWhile isPositional = others at later whole
  cases room : call.leavesNoPlace with
  | true =>
    refine ⟨call.positional, others ++ [{ keyword := some (configWord, [.text "="]), value := config }],
      ⟨?_, first, ?_, .inr ?_⟩, ?_⟩
    next =>
      rw [map_attach_of_leavesNoPlace outline_ignoresComma room, ← List.append_assoc, ← whole, List.map_append, List.map_singleton]
    next =>
      simp only [List.mem_append, List.mem_singleton, or_imp, forall_and, forall_eq]
      exact ⟨⟨fun argument mem => (later argument mem).1, rfl⟩,
        fun argument mem => (later argument mem).2, rfl⟩
    next => simp [hasKeyword, configWord]
    next =>
      rw [← List.append_assoc, ← whole]
      simp only [List.mem_append, List.mem_singleton, or_imp, forall_and, forall_eq]
      exact and_iff_left closed
  | false =>
    refine ⟨call.front ++ [.ofValue config], others, ⟨?_, ?_, later, .inl ?_⟩, ?_⟩
    next => simp [map_attach_front outline_ignoresComma room kept, named]
    next =>
      simp only [List.mem_append, List.mem_singleton, or_imp, forall_and, forall_eq]
      exact ⟨fun argument mem => isPositional_of_mem_front mem, rfl⟩
    next => rw [List.length_append, length_front kept]; exact Nat.lt_succ_self 2
    next =>
      -- Placeholders are no generators.
      have holes : ∀ argument ∈ placeholders (configPlace - call.positional.length),
          argument.isGenerator = false := by
        intro argument mem
        obtain rfl := (List.mem_replicate.1 mem).2
        rfl
      rw [whole, front]
      simp only [List.mem_append, List.mem_singleton, or_imp, forall_and, forall_eq]
      exact ⟨fun all => ⟨all.1.1.1, all.2⟩, fun all => ⟨⟨⟨all.1, holes⟩, closed⟩, all.2⟩⟩

theorem Splits.withCommas {arguments before after : List Argument} (splits : Splits arguments before after) :
    Splits (withCommas arguments) before after :=
  { splits with outlines := (outline_ignoresComma.map_withCommas arguments).trans splits.outlines }

theorem Splits.areOrdered {arguments before after : List Argument} (splits : Splits arguments before after) :
    Argument.areOrdered arguments = true := by
  rw [← areOrdered_map_outline, splits.outlines, areOrdered_map_outline]
  exact areOrdered_append splits.first splits.later

theorem forall_isGenerator_congr {arguments others : List Argument}
    (same : arguments.map outline = others.map outline) :
    (∀ argument ∈ arguments, argument.isGenerator = false) ↔
      ∀ argument ∈ others, argument.isGenerator = false := by
  have flags (arguments : List Argument) : (∀ argument ∈ arguments, argument.isGenerator = false) ↔
      ∀ argument ∈ arguments.map outline, argument.isGenerator = false := by simp
  rw [flags arguments, flags others, same]

theorem Splits.length {arguments before after : List Argument} (splits : Splits arguments before after) :
    arguments.length = before.length + after.length := by
  simpa using congrArg List.length splits.outlines

theorem Splits.isConfigured {arguments before after : List Argument}
    (splits : Splits arguments before after) (called : call.arguments = arguments) :
    call.isConfigured = true := by
  rw [@isConfigured_congr call { call with arguments := before ++ after } (called ▸ splits.outlines)]
  have places : (before ++ after).takeWhile isPositional = before ++ after.takeWhile isPositional :=
    List.takeWhile_append_of_pos splits.first
  simp only [Call.isConfigured, positional, places, Bool.or_eq_true, decide_eq_true_eq]
  refine splits.holds.imp (fun long => ?_) fun keyword => ?_
  next =>
    rw [List.length_append]
    omega
  next => rw [List.any_append, keyword, Bool.or_true]

variable (ordered : areOrdered call.arguments = true) (kept : call.isConfigured = false)
  (plain : call.hasUnpacking = false) {config : Node} (closed : config.isBareGenerator = false)

include ordered kept plain closed

/-- A call that has been given a configuration holds one, with its commas written. -/
theorem attach_isConfigured {written : Call}
    (read : ofNode? (call.attach config).toNode = some written) : written.isConfigured = true := by
  obtain ⟨before, after, splits, -⟩ := attach_splits ordered kept plain closed
  rw [ofNode?_toNode] at read
  obtain rfl := Option.some.inj read
  exact splits.withCommas.isConfigured rfl

/-- The arguments stay grammatical unless one is a generator that has borrowed its parentheses from
the call. -/
theorem attach_areGrammatical_iff {written : Call}
    (read : ofNode? (call.attach config).toNode = some written) :
    areGrammatical written.arguments = true ↔
      ∀ argument ∈ call.arguments, argument.isGenerator = false := by
  obtain ⟨before, after, splits, generators⟩ := attach_splits ordered kept plain closed
  rw [ofNode?_toNode] at read
  obtain rfl := Option.some.inj read
  have several : 2 ≤ (Argument.withCommas (call.attach config).arguments).length := by
    rw [length_withCommas]
    exact two_le_length_attach call config
  rw [areGrammatical_iff several, ← generators,
    ← forall_isGenerator_congr splits.withCommas.outlines]
  exact and_iff_right splits.withCommas.areOrdered

end Call

end Graft
