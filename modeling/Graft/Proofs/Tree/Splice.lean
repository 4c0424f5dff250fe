import Graft.Proofs.Tree.Call
import Mathlib.Data.List.InsertIdx
import Mathlib.Data.List.Basic

set_option autoImplicit false

/-!
The arguments of a call once it has been given a configuration, one by one, and the commas that
are printed between them.
-/
namespace Graft

def Leaf.isComma : Leaf → Bool
  | .text written => written == "," || written == ", "
  | _ => false

/-- The number of commas among leaves. A comment is one leaf, whatever it says. -/
def commas (leaves : List Leaf) : Nat := leaves.countP Leaf.isComma

namespace Argument

-- The gap stays in view: it is printed after whatever comma the argument ends up with.
def content (argument : Argument) : Argument := { argument with comma := [] }

theorem content_ignoresComma : IgnoresComma content := fun _ _ => rfl

/-- An argument owns one comma or none, and there is no other after it. -/
def IsPunctuated (argument : Argument) : Prop :=
  commas argument.gap = 0 ∧ (argument.comma = [] ∨ commas argument.comma = 1)

theorem isPunctuated_withCommas {arguments : List Argument}
    (each : ∀ argument ∈ arguments, argument.IsPunctuated) :
    ∀ argument ∈ withCommas arguments, argument.IsPunctuated := by
  induction arguments with
  | nil => simp [withCommas]
  | cons first rest ih =>
    have later := ih fun argument mem => each argument (by simp [mem])
    have own := each first (by simp)
    cases rest with
    | nil => simpa [withCommas] using own
    | cons second others =>
      rw [withCommas_cons first (List.cons_ne_nil _ _)]
      intro argument mem
      rcases List.mem_cons.1 mem with rfl | mem
      · split
        · exact ⟨own.1, .inr rfl⟩
        · exact own
      · exact later argument mem

/-- Between two neighbours one comma is printed. -/
theorem commas_withCommas {arguments : List Argument}
    (each : ∀ argument ∈ arguments, argument.IsPunctuated) {i : Nat} {argument : Argument}
    (here : (withCommas arguments)[i]? = some argument) (next : i + 1 < arguments.length) :
    commas (argument.comma ++ argument.gap) = 1 := by
  have punctuated := isPunctuated_withCommas each argument (List.mem_of_getElem? here)
  have owned := comma_of_areSeparated (areSeparated_withCommas arguments) here
    (by rwa [length_withCommas])
  rcases punctuated with ⟨silent, none | one⟩
  · simp [none] at owned
  · have both : commas (argument.comma ++ argument.gap) = commas argument.comma + commas argument.gap :=
      List.countP_append
    rw [both, one, silent]

/-- No positional argument follows one that is not. -/
def KeywordsLast (arguments : List Argument) : Prop :=
  arguments.Pairwise fun first later => later.isPositional = true → first.isPositional = true

theorem keywordsLast_congr {arguments others : List Argument}
    (same : arguments.map content = others.map content) :
    KeywordsLast arguments ↔ KeywordsLast others := by
  have seen (arguments : List Argument) :
      KeywordsLast (arguments.map content) ↔ KeywordsLast arguments := List.pairwise_map
  rw [← seen arguments, same, seen others]

end Argument

namespace Call

open Argument

theorem isPunctuated_append {arguments : List Argument} {added : Argument}
    (each : ∀ argument ∈ arguments, argument.IsPunctuated) (own : added.IsPunctuated) :
    ∀ argument ∈ append arguments added, argument.IsPunctuated := by
  unfold append
  split
  next => simpa using own
  next last found =>
    have moved := each last (List.mem_of_getLast? found)
    split
    · simpa [or_imp, forall_and] using ⟨each, own⟩
    · intro argument mem
      simp only [List.mem_append, List.mem_cons, List.not_mem_nil, or_false] at mem
      rcases mem with mem | rfl | rfl
      · exact each argument (List.dropLast_subset _ mem)
      · exact ⟨moved.1, .inl rfl⟩
      · exact ⟨own.1, moved.2⟩

theorem isPunctuated_attach {call : Call} (each : ∀ argument ∈ call.arguments, argument.IsPunctuated)
    (config : Node) : ∀ argument ∈ (call.attach config).arguments, argument.IsPunctuated := by
  have bare (keyword : Option (Identifier × List Leaf)) (value : Node) :
      IsPunctuated { keyword, value } := ⟨rfl, .inl rfl⟩
  have filled (count : Nat) :
      ∀ argument ∈ call.arguments ++ placeholders count, argument.IsPunctuated := by
    simp only [List.mem_append, placeholders, List.mem_replicate]
    rintro argument (mem | ⟨-, rfl⟩)
    · exact each argument mem
    · exact bare none _
  simp only [attach]
  split
  next => exact isPunctuated_append each (bare _ config)
  next =>
    split
    next => exact isPunctuated_append (filled _) (bare none config)
    next =>
      intro argument mem
      rcases List.mem_append.1 mem with mem | mem
      · exact filled _ argument (List.mem_of_mem_take mem)
      · rcases List.mem_cons.1 mem with rfl | mem
        · exact bare none config
        · exact filled _ argument (List.mem_of_mem_drop mem)

def named (config : Node) : Argument :=
  { keyword := some (configWord, [.text "="]), value := config }

/-- Where a configuration goes: behind all arguments as a keyword, else to its own place. -/
def place (call : Call) : Nat :=
  if call.leavesNoPlace then call.arguments.length else configPlace

def added (call : Call) (config : Node) : Argument :=
  if call.leavesNoPlace then named config else .ofValue config

def hole : Argument := .ofValue (.name {} noneWord)

-- A call that takes its configuration as a keyword has no place to fill before it.
def filled (call : Call) : List Argument :=
  if call.leavesNoPlace then call.arguments else call.padded

theorem filled_eq (call : Call) :
    call.filled = call.arguments ++ List.replicate (call.place - call.arguments.length) hole := by
  unfold filled place
  split
  next => simp
  next opened =>
    have few : configPlace - call.positional.length = configPlace - call.arguments.length := by
      have fits : call.positional.length ≤ call.arguments.length :=
        (List.takeWhile_prefix isPositional).length_le
      simp only [leavesNoPlace, Bool.and_eq_true, decide_eq_true_eq] at opened
      omega
    rw [padded, few]
    rfl

theorem place_le_length_filled (call : Call) : call.place ≤ call.filled.length := by
  rw [filled_eq, List.length_append, List.length_replicate]
  omega

/-- All three ways to give a call its configuration put one argument in at one place. -/
theorem map_attach (call : Call) (config : Node) : (call.attach config).arguments.map content =
    (call.filled.map content).insertIdx call.place (call.added config) := by
  cases room : call.leavesNoPlace with
  | true =>
    rw [map_attach_of_leavesNoPlace content_ignoresComma room]
    simp only [filled, place, added, room, if_true]
    rw [← List.length_map content, List.insertIdx_length_self]
    rfl
  | false =>
    rw [map_attach_of_not_leavesNoPlace content_ignoresComma room]
    simp only [filled, place, added, room, Bool.false_eq_true, if_false]
    obtain ⟨first, second, rest, same⟩ : ∃ first second rest, call.padded = first :: second :: rest := by
      have enough := call.two_le_length_padded
      generalize call.padded = padded at enough ⊢
      rcases padded with _ | ⟨first, _ | ⟨second, rest⟩⟩
      next => exact absurd enough (by decide)
      next => exact absurd enough (by simp [configPlace])
      next => exact ⟨first, second, rest, rfl⟩
    rw [same]
    rfl

theorem map_getElem?_attach (call : Call) (config : Node) (i : Nat) :
    (call.attach config).arguments[i]?.map content =
      if i < call.place then call.filled[i]?.map content
      else if i = call.place then some (call.added config)
      else call.filled[i - 1]?.map content := by
  have whole := congrArg (·[i]?) (map_attach call config)
  simp only [List.getElem?_map, List.getElem?_insertIdx, List.length_map] at whole
  rw [whole]
  by_cases at_place : i = call.place
  · simp [at_place, call.place_le_length_filled]
  · simp [at_place]

theorem positional_le_place {call : Call} (kept : call.isConfigured = false) :
    call.positional.length ≤ call.place := by
  unfold place
  split
  · exact (List.takeWhile_prefix isPositional).length_le
  · exact length_positional_le kept

theorem map_positional (call : Call) :
    call.positional.map content = (call.arguments.map content).takeWhile isPositional := by
  rw [List.takeWhile_map]
  rfl

theorem takeWhile_front {front back : List Argument}
    (first : ∀ argument ∈ front, argument.isPositional = true) :
    front.map content <+: (front.map content ++ back).takeWhile isPositional := by
  have each : ∀ argument ∈ front.map content, argument.isPositional = true := by
    intro argument mem
    rcases List.mem_map.1 mem with ⟨shown, own, rfl⟩
    exact first shown own
  rw [List.takeWhile_append_of_pos each]
  exact List.prefix_append _ _

/-- The configuration goes behind the positional arguments, which keep their indices. -/
theorem positional_attach {call : Call} (kept : call.isConfigured = false) (config : Node) :
    call.positional.map content <+: (call.attach config).positional.map content := by
  have front : ((call.attach config).arguments.map content).take call.positional.length =
      call.positional.map content := by
    rw [map_attach, List.take_insertIdx_eq_take_of_le _ _ _ _ (positional_le_place kept), filled_eq,
      arguments_eq, List.append_assoc, List.map_append]
    exact List.take_left' (List.length_map _)
  rw [map_positional (call.attach config),
    ← List.take_append_drop call.positional.length ((call.attach config).arguments.map content), front]
  exact takeWhile_front fun argument mem => isPositional_of_mem_takeWhile mem

theorem any_hasKeyword_content (word : String) (arguments : List Argument) :
    (arguments.map content).any (hasKeyword word) = arguments.any (hasKeyword word) := by
  rw [List.any_map]
  rfl

theorem isConfigured_attach {call : Call} (kept : call.isConfigured = false) (config : Node) :
    (call.attach config).isConfigured = true := by
  simp only [isConfigured, Bool.or_eq_true, decide_eq_true_eq]
  cases room : call.leavesNoPlace with
  | true =>
    right
    rw [← any_hasKeyword_content, map_attach_of_leavesNoPlace content_ignoresComma room]
    simp [hasKeyword, content, configWord]
  | false =>
    left
    have first : ∀ argument ∈ call.front ++ [.ofValue config], argument.isPositional = true := by
      simp only [List.mem_append, List.mem_singleton, or_imp, forall_and, forall_eq]
      exact ⟨fun argument mem => isPositional_of_mem_front mem, rfl⟩
    have long := (@takeWhile_front _ ((call.arguments.dropWhile isPositional).map content)
      first).length_le
    rw [List.map_append, List.append_assoc, List.map_singleton, List.singleton_append,
      ← map_attach_front content_ignoresComma room kept, ← map_positional] at long
    simp only [List.length_map, List.length_append, length_front kept, List.length_singleton] at long
    exact long

theorem content_attach_of_leavesNoPlace {call : Call} (closed : call.leavesNoPlace = true)
    (config : Node) :
    (call.attach config).arguments.map content = (call.arguments ++ [named config]).map content := by
  rw [map_attach_of_leavesNoPlace content_ignoresComma closed, List.map_append, List.map_singleton]
  rfl

theorem content_attach_front {call : Call} (opened : call.leavesNoPlace = false)
    (kept : call.isConfigured = false) (config : Node) : (call.attach config).arguments.map content =
      (call.front ++ .ofValue config :: call.arguments.dropWhile isPositional).map content := by
  rw [map_attach_front content_ignoresComma opened kept, List.map_append, List.map_cons]

theorem keywordsLast_attach {call : Call} (kept : call.isConfigured = false) (config : Node)
    (sorted : KeywordsLast call.arguments) : KeywordsLast (call.attach config).arguments := by
  cases room : call.leavesNoPlace with
  | true =>
    rw [keywordsLast_congr (content_attach_of_leavesNoPlace room config)]
    refine List.pairwise_append.2 ⟨sorted, List.pairwise_singleton _ _, ?_⟩
    intro first _ added mem lone
    rw [List.mem_singleton.1 mem] at lone
    exact absurd lone Bool.false_ne_true
  | false =>
    rw [keywordsLast_congr (content_attach_front room kept config)]
    have rest := sorted.sublist (List.dropWhile_sublist isPositional)
    refine List.pairwise_append.2 ⟨?_, List.pairwise_cons.2 ⟨fun _ _ _ => rfl, rest⟩, ?_⟩
    · exact List.pairwise_of_forall_mem_list fun first mem _ _ _ => isPositional_of_mem_front mem
    · exact fun first mem _ _ _ => isPositional_of_mem_front mem

/-- The properties among the arguments of a call. -/
def propsAmong? (arguments : List Argument) : Option Node :=
  match arguments.takeWhile isPositional with
  | _ :: props :: _ => some props.value
  | _ => (arguments.find? (hasKeyword "props")).map (·.value)

theorem props?_eq (call : Call) : call.props? = propsAmong? (call.arguments.map content) := by
  have named : ((call.arguments.map content).find? (hasKeyword "props")).map (·.value) =
      (call.arguments.find? (hasKeyword "props")).map (·.value) := by
    rw [List.find?_map, Option.map_map]
    rfl
  rw [propsAmong?, ← map_positional, named, props?]
  rcases call.positional with _ | ⟨first, _ | ⟨second, rest⟩⟩ <;> rfl

theorem props?_congr {call other : Call}
    (same : call.arguments.map content = other.arguments.map content) : call.props? = other.props? := by
  rw [props?_eq, props?_eq, same]

theorem props?_of_isPositional {call : Call} (few : call.arguments.length < 2)
    (each : ∀ argument ∈ call.arguments, argument.isPositional = true) : call.props? = none := by
  have whole : call.positional = call.arguments := by
    have all := @List.takeWhile_append_of_pos _ _ _ [] each
    simpa [Call.positional] using all
  have unnamed : call.arguments.find? (hasKeyword "props") = none := by
    rw [List.find?_eq_none]
    intro argument mem
    have plain := each argument mem
    simp only [isPositional, Bool.and_eq_true, Option.isNone_iff_eq_none] at plain
    simp [hasKeyword, plain.1]
  unfold props?
  split
  next first second rest two =>
    rw [← whole, two] at few
    exact absurd few (by simp)
  next => rw [unnamed, Option.map_none]

theorem props?_of_positional {call : Call} {first second : Argument} {rest : List Argument}
    (two : call.positional = first :: second :: rest) : call.props? = some second.value := by
  rw [props?, two]

/-- A placeholder is found as properties only where there were none. -/
theorem props?_attach {call : Call} (kept : call.isConfigured = false) (config : Node) :
    (call.attach config).props? = call.props?.or
      (if call.arguments.length < call.place then some (.name {} noneWord) else none) := by
  cases room : call.leavesNoPlace with
  | true =>
    rw [@props?_congr _ { call with arguments := call.arguments ++ [named config] }
      (content_attach_of_leavesNoPlace room config)]
    have stops : (call.arguments ++ [named config]).takeWhile isPositional = call.positional := by
      have short : call.positional.length < call.arguments.length := by
        simpa [leavesNoPlace] using (Bool.and_eq_true_iff.1 room).2
      exact List.takeWhile_append.trans (if_neg (Nat.ne_of_lt short))
    have found : (call.arguments ++ [named config]).find? (hasKeyword "props") =
        call.arguments.find? (hasKeyword "props") := by
      rw [List.find?_append]
      exact Option.or_none
    simp only [place, room, if_true, Nat.lt_irrefl, if_false, Option.or_none]
    rw [props?, positional, stops, found]
    rfl
  | false =>
    obtain ⟨first, second, two⟩ : ∃ first second, call.front = [first, second] :=
      List.length_eq_two.1 (length_front kept)
    rw [@props?_congr _
      { call with arguments := call.front ++ .ofValue config :: call.arguments.dropWhile isPositional }
      (content_attach_front room kept config)]
    have reach (others : List Argument) :
        Call.positional { call with arguments := call.front ++ others } =
          first :: second :: others.takeWhile isPositional := by
      rw [Call.positional, List.takeWhile_append_of_pos fun _ mem => isPositional_of_mem_front mem, two]
      rfl
    rw [props?_of_positional (reach _)]
    -- With both places taken the properties are the call's own; otherwise a placeholder stands in for them.
    by_cases full : call.positional.length = configPlace
    · have own : call.positional = [first, second] := by
        rw [← two, front, full]
        exact (List.append_nil _).symm
      rw [props?_of_positional own, Option.some_or]
    · have few : call.positional.length < configPlace := by
        have bound := length_positional_le kept
        omega
      have whole : call.positional = call.arguments := by
        have all : call.arguments.length ≤ call.positional.length := by
          simpa [leavesNoPlace, few] using room
        exact (List.takeWhile_prefix isPositional).eq_of_length_le all
      have last : second = .ofValue (.name {} noneWord) := by
        have ends := congrArg List.getLast? two
        rw [front, placeholders, List.getLast?_append] at ends
        simpa [List.getLast?_replicate, Nat.sub_ne_zero_of_lt few, eq_comm] using ends
      have none : call.props? = none := props?_of_isPositional (whole ▸ few)
        fun argument mem => isPositional_of_mem_takeWhile (whole.symm ▸ mem)
      rw [none, last, Option.none_or, if_pos]
      · rfl
      · rw [place, room]
        exact whole ▸ few

/-- What a call holds that was given a configuration. Commas are left out of view until the last
field. -/
structure Spliced (call : Call) (config : Node) (after : Call) : Prop where
  frame : after = { call with arguments := after.arguments }
  count : after.arguments.length = max call.arguments.length call.place + 1
  before : ∀ i argument, i < call.place → call.arguments[i]? = some argument →
    after.arguments[i]?.map content = some argument.content
  behind : ∀ i argument, call.place ≤ i → call.arguments[i]? = some argument →
    after.arguments[i + 1]?.map content = some argument.content
  added : after.arguments[call.place]?.map content = some (call.added config)
  holes : ∀ i, call.arguments.length ≤ i → i < call.place →
    after.arguments[i]?.map content = some hole
  positional : call.positional.map content <+: after.positional.map content
  sorted : KeywordsLast call.arguments → KeywordsLast after.arguments
  configured : after.isConfigured = true
  props : after.props? = call.props?.or
    (if call.arguments.length < call.place then some (.name {} noneWord) else none)
  punctuated : (∀ argument ∈ call.arguments, argument.IsPunctuated) →
    ∀ i argument, (withCommas after.arguments)[i]? = some argument →
      i + 1 < after.arguments.length → commas (argument.comma ++ argument.gap) = 1

/-- Every call without a configuration takes one and loses nothing. -/
theorem attach_spliced {call : Call} (kept : call.isConfigured = false) (config : Node) :
    Spliced call config (call.attach config) where
  frame := attach_eq call config
  count := by
    have lengths := congrArg List.length (map_attach call config)
    rw [List.length_insertIdx_of_le_length (by simpa using call.place_le_length_filled),
      List.length_map, List.length_map, filled_eq, List.length_append, List.length_replicate] at lengths
    omega
  before i argument low own := by
    rw [map_getElem?_attach, if_pos low, filled_eq, List.getElem?_append_left
      (List.getElem?_eq_some_iff.1 own).1, own, Option.map_some]
  behind i argument high own := by
    rw [map_getElem?_attach, if_neg (by omega), if_neg (by omega), Nat.add_sub_cancel, filled_eq,
      List.getElem?_append_left (List.getElem?_eq_some_iff.1 own).1, own, Option.map_some]
  added := by rw [map_getElem?_attach, if_neg (Nat.lt_irrefl _), if_pos rfl]
  holes i missing low := by
    rw [map_getElem?_attach, if_pos low, filled_eq, List.getElem?_append_right missing,
      List.getElem?_replicate, if_pos (by omega)]
    rfl
  positional := positional_attach kept config
  sorted := keywordsLast_attach kept config
  configured := isConfigured_attach kept config
  props := props?_attach kept config
  punctuated each _ _ here next := commas_withCommas (isPunctuated_attach each config) here next

theorem attach_spliced_trailing :
    let call : Call :=
      { callee := .name {} ⟨"FormKit", by decide +kernel⟩
        arguments := [{ value := .name {} ⟨"el", by decide +kernel⟩, comma := [.text ","] }] }
    call.isConfigured = false ∧ Spliced call (.plain .dict []) (call.attach (.plain .dict [])) :=
  ⟨by decide +kernel, attach_spliced (by decide +kernel) (.plain .dict [])⟩

end Call

end Graft
