import Graft.Proofs.Grafting.Inject

set_option autoImplicit false

/-!
Where the calls of a tree stand after the injection. Arguments that come after the place of a
configuration move on by one; every other part keeps its place among its neighbours.
-/
namespace Graft

open Node

namespace Call

open Argument

/-- The place of an argument after its call has been given a configuration. -/
def seat (call : Call) (i : Nat) : Nat :=
  if call.leavesNoPlace || i < configPlace then i else i + 1

theorem getElem?_inserted {A : Type} {items : List A} (enough : configPlace ≤ items.length) (added : A)
    (i : Nat) : (items.take configPlace ++ added :: items.drop configPlace)[if i < configPlace then i else i + 1]? =
      items[i]? := by
  have length : (items.take configPlace).length = configPlace := List.length_take_of_le enough
  split
  next early => rw [List.getElem?_append_left (by omega), List.getElem?_take_of_lt early]
  next late =>
    rw [List.getElem?_append_right (by omega), length,
      show i + 1 - configPlace = (i - configPlace) + 1 by omega, List.getElem?_cons_succ,
      List.getElem?_drop, show configPlace + (i - configPlace) = i by omega]

theorem seat_of_leavesNoPlace {call : Call} (closed : call.leavesNoPlace = true) (i : Nat) :
    call.seat i = i := by
  simp [seat, closed]

theorem seat_of_not_leavesNoPlace {call : Call} (opened : call.leavesNoPlace = false) (i : Nat) :
    call.seat i = if i < configPlace then i else i + 1 := by
  simp [seat, opened]

theorem getElem?_attach {B : Type} {view : Argument → B} (ignores : Argument.IgnoresComma view)
    (call : Call) (config : Node) {i : Nat} (bound : i < call.arguments.length) :
    (Argument.withCommas (call.attach config).arguments)[call.seat i]?.map view =
      call.arguments[i]?.map view := by
  rw [← List.getElem?_map, ← List.getElem?_map, ignores.map_withCommas]
  cases room : call.leavesNoPlace with
  | true =>
    rw [seat_of_leavesNoPlace room, map_attach_of_leavesNoPlace ignores room,
      List.getElem?_append_left (by simpa using bound)]
  | false =>
    have inside : call.padded[i]? = call.arguments[i]? := List.getElem?_append_left bound
    rw [map_attach_of_not_leavesNoPlace ignores room, List.map_take, List.map_drop,
      seat_of_not_leavesNoPlace room, getElem?_inserted (by simpa using call.two_le_length_padded),
      List.getElem?_map, inside, List.getElem?_map]

/-- Where the new arguments of a call with a configuration begin. -/
def firstAdded (call : Call) : Nat :=
  if call.leavesNoPlace then call.arguments.length else min call.arguments.length configPlace

/-- The configuration, and the placeholders before it. -/
def addedCount (call : Call) : Nat :=
  if call.leavesNoPlace then 1 else configPlace - call.positional.length + 1

theorem firstAdded_le (call : Call) : call.firstAdded ≤ call.arguments.length := by
  unfold firstAdded
  split
  next => exact Nat.le_refl _
  next => exact Nat.min_le_left _ _

theorem firstAdded_ne_zero {call : Call} (some : call.arguments ≠ []) : call.firstAdded ≠ 0 := by
  have length : call.arguments.length ≠ 0 := fun none => some (List.length_eq_zero_iff.1 none)
  unfold firstAdded configPlace
  split <;> omega

theorem addedCount_congr {call other : Call}
    (same : call.arguments.map outline = other.arguments.map outline) :
    call.addedCount = other.addedCount := by
  unfold addedCount
  rw [leavesNoPlace_congr same, length_positional_congr same]

/-- Where a configuration has its place, all arguments are positional or there are enough of them. -/
theorem positional_of_not_leavesNoPlace {call : Call} (opened : call.leavesNoPlace = false) :
    call.positional.length = call.arguments.length ∨ configPlace ≤ call.positional.length := by
  have short : call.positional.length ≤ call.arguments.length := (List.takeWhile_sublist _).length_le
  simp only [leavesNoPlace, Bool.and_eq_false_iff, decide_eq_false_iff_not] at opened
  omega

theorem seat_eq (call : Call) {i : Nat} (bound : i < call.arguments.length) :
    call.seat i = if i < call.firstAdded then i else i + call.addedCount := by
  have short : call.positional.length ≤ call.arguments.length := (List.takeWhile_sublist _).length_le
  cases room : call.leavesNoPlace with
  | true => simp [seat, firstAdded, room, bound]
  | false =>
    simp only [seat, firstAdded, addedCount, room, Bool.false_or, decide_eq_true_eq, Bool.false_eq_true,
      if_false]
    -- Either there are two arguments at most, or no placeholder is needed.
    obtain all | full := positional_of_not_leavesNoPlace room
    next => split <;> split <;> omega
    next => split <;> split <;> omega

/-- The arguments of a call with a configuration: the first of its own, those that are only written to
hold the configuration, and the others of its own. -/
theorem exists_added (call : Call) (config : Node) : ∃ added,
    (Argument.withCommas (call.attach config).arguments).map Argument.value =
      (call.arguments.map Argument.value).take call.firstAdded ++
        (added ++ (call.arguments.map Argument.value).drop call.firstAdded) ∧
      added.length = call.addedCount ∧ ∀ value ∈ added, value = config ∨ value = .name {} noneWord := by
  have ignores : Argument.IgnoresComma Argument.value := fun _ _ => rfl
  rw [ignores.map_withCommas]
  cases room : call.leavesNoPlace with
  | true =>
    refine ⟨[config], ?_, by simp [addedCount, room], by simp⟩
    have first : call.firstAdded = call.arguments.length := by simp [firstAdded, room]
    rw [map_attach_of_leavesNoPlace ignores room, first, List.take_of_length_le (by simp),
      List.drop_eq_nil_of_le (by simp), List.append_nil]
  | false =>
    rw [map_attach_of_not_leavesNoPlace ignores room]
    have short : call.positional.length ≤ call.arguments.length := (List.takeWhile_sublist _).length_le
    by_cases full : configPlace ≤ call.positional.length
    next =>
      have zero : configPlace - call.positional.length = 0 := Nat.sub_eq_zero_of_le full
      have none : call.padded = call.arguments := by simp [padded, placeholders, zero]
      have first : call.firstAdded = configPlace := by
        simp only [firstAdded, room, Bool.false_eq_true, if_false]
        omega
      refine ⟨[config], ?_, by simp [addedCount, room, zero], by simp⟩
      rw [none, first, List.map_take, List.map_drop]
      rfl
    next =>
      have all := (positional_of_not_leavesNoPlace room).resolve_right full
      have fill : call.padded.length = configPlace := by
        simp only [padded, placeholders, List.length_append, List.length_replicate]
        omega
      have first : call.firstAdded = call.arguments.length := by
        simp only [firstAdded, room, Bool.false_eq_true, if_false]
        omega
      refine ⟨(placeholders (configPlace - call.positional.length)).map Argument.value ++ [config], ?_, ?_, ?_⟩
      next =>
        rw [List.take_of_length_le (Nat.le_of_eq fill), List.drop_eq_nil_of_le (Nat.le_of_eq fill), first,
          List.take_of_length_le (by simp), List.drop_eq_nil_of_le (by simp), padded]
        simp [Argument.ofValue]
      next => simp [addedCount, room, placeholders]
      next =>
        simp only [placeholders, List.map_replicate, List.mem_append, List.mem_replicate,
          List.mem_singleton]
        exact fun value mem => mem.elim (fun blank => .inr blank.2) .inl

theorem length_attach (call : Call) (config : Node) :
    (Argument.withCommas (call.attach config).arguments).length = call.arguments.length + call.addedCount := by
  obtain ⟨added, split, count, -⟩ := call.exists_added config
  have lengths := congrArg List.length split
  have bound := call.firstAdded_le
  simp only [List.length_map, List.length_append, List.length_take, List.length_drop, count] at lengths
  omega

/-- Only the configuration and placeholders are written between the arguments that a call had. -/
theorem value_of_added (call : Call) (config : Node) {i : Nat} (late : call.firstAdded ≤ i)
    (early : i < call.firstAdded + call.addedCount) {argument : Argument}
    (there : (Argument.withCommas (call.attach config).arguments)[i]? = some argument) :
    argument.value = config ∨ argument.value = .name {} noneWord := by
  obtain ⟨added, split, count, each⟩ := call.exists_added config
  have first : ((call.arguments.map Argument.value).take call.firstAdded).length = call.firstAdded := by
    rw [List.length_take, List.length_map, Nat.min_eq_left call.firstAdded_le]
  have value := congrArg (·[i]?) split
  simp only [List.getElem?_map, there, Option.map_some] at value
  rw [List.getElem?_append_right (by omega), List.getElem?_append_left (by omega)] at value
  exact each _ (List.mem_of_getElem? value.symm)

theorem getElem?_append (arguments : List Argument) (added : Argument) {i : Nat}
    (bound : i + 1 < arguments.length) : (append arguments added)[i]? = arguments[i]? := by
  unfold append
  split
  next none => rw [List.getLast?_eq_none_iff.1 none] at bound; exact absurd bound (by simp)
  next last found =>
    split
    next => exact List.getElem?_append_left (by omega)
    next =>
      rw [List.getElem?_append_left (by simp; omega), List.getElem?_dropLast, if_pos (by omega)]

theorem getElem?_attach_of_next (call : Call) (config : Node) {i : Nat}
    (next : i + 1 < call.arguments.length) :
    (call.attach config).arguments[call.seat i]? = call.arguments[i]? := by
  have inside : call.padded[i]? = call.arguments[i]? := List.getElem?_append_left (by omega)
  cases room : call.leavesNoPlace with
  | true =>
    have few := room
    simp only [leavesNoPlace, Bool.and_eq_true, decide_eq_true_eq] at few
    rw [seat_of_leavesNoPlace room, attach, if_pos few, getElem?_append _ _ next]
  | false =>
    have many : ¬ (call.positional.length < configPlace ∧
        call.positional.length < call.arguments.length) := by
      simpa [leavesNoPlace] using room
    simp only [attach, if_neg many, seat_of_not_leavesNoPlace room]
    rw [← padded]
    split
    next full =>
      have more : call.arguments.length ≤ call.padded.length := by simp [padded]
      rw [if_pos (show i < configPlace by omega), getElem?_append _ _ (by omega), inside]
    next => rw [getElem?_inserted call.two_le_length_padded, inside]

/-- Of the arguments that a call had, only the last can lose its comma. -/
theorem exists_written {call : Call} (separated : areSeparated call.arguments = true) (config : Node)
    {argument : Argument} {i : Nat} (here : call.arguments[i]? = some argument) : ∃ written,
      (withCommas (call.attach config).arguments)[call.seat i]? = some written ∧
        { written with comma := [] } = { argument with comma := [] } ∧
          (i + 1 < call.arguments.length → written = argument) := by
  have ignores : IgnoresComma fun argument => { argument with comma := [] } := fun _ _ => rfl
  have bound := (List.getElem?_eq_some_iff.1 here).1
  have same := call.getElem?_attach ignores config bound
  rw [here, Option.map_some, Option.map_eq_some_iff] at same
  obtain ⟨written, there, same⟩ := same
  refine ⟨written, there, same, fun next => ?_⟩
  have kept := getElem?_withCommas ((call.getElem?_attach_of_next config next).trans here)
    (comma_of_areSeparated separated here next)
  exact Option.some.inj (there.symm.trans kept)

end Call

namespace Node

variable (root : Node) (configs : List (Address × Node))

/-- The call whose arguments stand at an address, if it is given a configuration. -/
def givenCall? (above : Address) : Option Call :=
  match above.getLast?, configs.lookup above.dropLast with
  | some 2, some _ => (root.part? above.dropLast).bind Call.ofNode?
  | _, _ => none

/-- The place of a part among its neighbours after the injection. -/
def seat (above : Address) (i : Nat) : Nat :=
  match givenCall? root configs above with
  | some call => call.seat i
  | none => i

/-- The path to a part, from a node on, after the injection. -/
def moved : Address → Address → Address
  | _, [] => []
  | above, i :: rest => seat root configs above i :: moved (above ++ [i]) rest

theorem moved_append (above first rest : Address) :
    moved root configs above (first ++ rest) =
      moved root configs above first ++ moved root configs (above ++ first) rest := by
  induction first generalizing above with
  | nil => simp [moved]
  | cons i first ih => simp [moved, ih]

section

variable {root configs}

theorem givenCall?_of_not_call {above : Address} {node : Node} (found : root.part? above = some node)
    (other : Call.ofNode? node = none) (i : Nat) : givenCall? root configs (above ++ [i]) = none := by
  unfold givenCall?
  split
  next => rw [List.dropLast_concat, found, Option.bind_some, other]
  next => rfl

theorem givenCall?_of_ungiven {above : Address} {node : Node} (found : root.part? above = some node)
    (ungiven : configs.lookup above = none ∨ Call.ofNode? node = none) (i : Nat) :
    givenCall? root configs (above ++ [i]) = none := by
  obtain free | other := ungiven
  next => simp [givenCall?, free]
  next => exact givenCall?_of_not_call found other i

theorem givenCall?_of_last {above : Address} {i : Nat} (other : i ≠ 2) :
    givenCall? root configs (above ++ [i]) = none := by
  simp [givenCall?, other]

/-- Only the arguments of a call that is given a configuration move. -/
theorem givenCall?_of_isA (wellFormed : root.wellFormed = true) {above : Address} {node : Node}
    (found : root.part? above = some node) (other : node.isA .arguments = false) :
    givenCall? root configs above = none := by
  unfold givenCall?
  split
  next _ last _ =>
    refine Option.eq_none_iff_forall_not_mem.2 fun call called => ?_
    obtain ⟨above, rfl⟩ := List.getLast?_eq_some_iff.1 last
    rw [List.dropLast_concat] at called
    obtain ⟨written, here, read⟩ := Option.bind_eq_some_iff.1 called
    obtain ⟨opening, around, nodes, closing, rfl, -⟩ :=
      Call.parts_of_wellFormed (wellFormed_part? wellFormed here) read
    rw [part?_concat, here] at found
    exact absurd other (by obtain rfl := Option.some.inj found; simp [isA])
  next => rfl

theorem seat_of_none {above : Address} (none : givenCall? root configs above = none) (i : Nat) :
    seat root configs above i = i := by
  simp [seat, none]

end

/-- Parts of this node keep their places. -/
def Still (above : Address) : Prop := ∀ i, seat root configs above i = i

theorem still_of_last {above : Address} {i : Nat} (other : i ≠ 2) : Still root configs (above ++ [i]) :=
  seat_of_none (givenCall?_of_last other)

theorem still_of_not_call {above : Address} {node : Node} (found : root.part? above = some node)
    (other : Call.ofNode? node = none) (i : Nat) : Still root configs (above ++ [i]) :=
  seat_of_none (givenCall?_of_not_call found other i)

theorem still_of_ungiven {above : Address} {node : Node} (found : root.part? above = some node)
    (ungiven : configs.lookup above = none ∨ Call.ofNode? node = none) (i : Nat) :
    Still root configs (above ++ [i]) :=
  seat_of_none (givenCall?_of_ungiven found ungiven i)

theorem seat_of_given {above : Address} {node config : Node} {call : Call}
    (found : root.part? above = some node) (called : Call.ofNode? node = some call)
    (given : configs.lookup above = some config) (i : Nat) :
    seat root configs (above ++ [2]) i = call.seat i := by
  simp [seat, givenCall?, found, called, given]

theorem part?_injectParts (address : Address) (i : Nat) (rest : Address) (node : Node) :
    (node.injectParts configs address).part? (i :: rest) =
      (node.children[i]?).bind fun child => (child.inject configs (address ++ [i])).part? rest := by
  rw [part?_cons]
  cases node with
  | leaf l => rfl
  | name parens id => rfl
  | branch kind parens nodes =>
    rw [injectParts, children_branch, getElem?_injectFrom, Option.bind_map, children_branch, Nat.zero_add]
    rfl

theorem part?_toNode_callee (call : Call) (rest : Address) :
    call.toNode.part? (0 :: rest) = call.callee.part? rest := rfl

theorem part?_toNode_attach (call : Call) (config : Node) {j : Nat} (bound : j < call.arguments.length)
    (rest : Address) : (call.attach config).toNode.part? (2 :: call.seat j :: 2 :: rest) =
      (call.arguments[j]?).bind fun argument => argument.value.part? rest := by
  have values := @Call.getElem?_attach _ Argument.value (fun _ _ => rfl) call config _ bound
  have same (found : Option Argument) : (found.bind fun argument => argument.value.part? rest) =
      (found.map Argument.value).bind (part? rest) := by
    cases found <;> rfl
  rw [same, ← values, ← same, Call.toNode_attach, part?_cons]
  simp only [children_branch, List.getElem?_cons_succ, List.getElem?_cons_zero, Option.bind_some, plain]
  rw [part?_cons, children_branch, List.getElem?_map, Option.bind_map]
  rfl

end Node

theorem Call.seat_injected (configs : List (Address × Node)) (address : Address) (call : Call)
    (i : Nat) : (call.injected configs address).seat i = call.seat i := by
  unfold seat
  rw [leavesNoPlace_congr (call.map_outline_injected configs address)]

/-- An argument is found at its seat, with the configurations that are for calls inside it. -/
theorem Call.value_at_seat (configs : List (Address × Node)) (address : Address) (call : Call) (config : Node)
    {i : Nat} {argument : Argument} (here : call.arguments[i]? = some argument) :
    (Argument.withCommas ((call.injected configs address).attach config).arguments)[call.seat i]?.map
        Argument.value =
      some (argument.value.inject configs (address ++ [2] ++ [i] ++ [2])) := by
  have bound : i < (call.injected configs address).arguments.length := by
    simpa [injected] using (List.getElem?_eq_some_iff.1 here).1
  have attached := @getElem?_attach _ Argument.value (fun _ _ => rfl) _ config i bound
  rw [← seat_injected configs address, attached, injected, List.getElem?_mapIdx, here]
  simp [Argument.injected]

theorem Argument.getElem?_filterMap {nodes : List Node}
    (each : ∀ node ∈ nodes, node.wellFormed = true ∧ node.isA .argument = true) (j : Nat) :
    (nodes.filterMap ofNode?)[j]? = (nodes[j]?).bind ofNode? := by
  induction nodes generalizing j with
  | nil => rfl
  | cons node rest ih =>
    obtain ⟨argument, read, -⟩ := exists_ofNode? [] [] (each node (by simp)).1 (each node (by simp)).2
    rw [List.filterMap_cons, read]
    cases j with
    | zero => exact read.symm
    | succ j => exact ih (fun other mem => each other (by simp [mem])) j

theorem Argument.length_filterMap {nodes : List Node}
    (each : ∀ node ∈ nodes, node.wellFormed = true ∧ node.isA .argument = true) :
    (nodes.filterMap ofNode?).length = nodes.length := by
  induction nodes with
  | nil => rfl
  | cons node rest ih =>
    obtain ⟨argument, read, -⟩ := exists_ofNode? [] [] (each node (by simp)).1 (each node (by simp)).2
    rw [List.filterMap_cons, read, List.length_cons, List.length_cons,
      ih fun other mem => each other (by simp [mem])]

theorem Argument.isA_of_ofNode? {node : Node} {argument : Argument}
    (read : ofNode? node = some argument) : node.isA .call = false := by
  unfold ofNode? at read
  split at read
  next => rfl
  next => exact absurd read (by simp)

theorem Argument.getElem?_value {node : Node} {argument : Argument}
    (read : ofNode? node = some argument) : node.children[2]? = some argument.value := by
  unfold ofNode? at read
  split at read
  next => exact Option.some.inj read ▸ rfl
  next => exact absurd read (by simp)

/-- A call inside an argument is inside its value. -/
theorem Argument.part?_value {node call : Node} (wellFormed : node.wellFormed = true)
    {argument : Argument} (read : ofNode? node = some argument) (is : call.isA .call = true)
    {path : Address} (part : node.part? path = some call) :
    ∃ rest, path = 2 :: rest ∧ argument.value.part? rest = some call := by
  unfold ofNode? at read
  split at read
  next parens star keyword value comma gap =>
    obtain rfl := Option.some.inj read
    obtain ⟨fits, each⟩ := (wellFormed_branch _ _ _).1 wellFormed
    have roles := Shape.hasRoles_of_fits fits
    simp only [Shape.hasRoles, Bool.and_eq_true, Bool.or_eq_true] at roles
    obtain ⟨⟨⟨⟨starred, word⟩, commas⟩, gaps⟩, -⟩ := roles
    have free {part : Node} (free : part.IsCallFree) {rest : Address}
        (found : part.part? rest = some call) : False :=
      absurd (free rest call found) (by simp [is])
    cases path with
    | nil => exact absurd (Option.some.inj part ▸ is) (by simp [isA])
    | cons i rest =>
      rcases i with _ | _ | _ | _ | _ | i
      next => exact (free (isCallFree_of_glue (each star (by simp)) starred) part).elim
      next => exact (free (word.elim isCallFree_of_isAbsent (isCallFree_of_isQuiet (each keyword (by simp)) rfl)) part).elim
      next => exact ⟨rest, rfl, part⟩
      next => exact (free (isCallFree_of_glue (each comma (by simp)) commas) part).elim
      next => exact (free (isCallFree_of_glue (each gap (by simp)) gaps) part).elim
      next => exact absurd part (by simp [part?_cons])
  next => exact absurd read (by simp)

namespace Node

variable {root : Node} {configs : List (Address × Node)}

/-- Wherever a path leads to a call, its image leads to what the injection makes of that call. -/
def Moves (root : Node) (configs : List (Address × Node)) (call : Node) (path : Address) : Prop :=
  ∀ above node, root.part? above = some node → Still root configs above →
    node.part? path = some call →
      (node.inject configs above).part? (moved root configs above path) =
        some (call.inject configs (above ++ path))

theorem moves_argument (wellFormed : root.wellFormed = true) {above rest : Address} {node call config : Node}
    {called : Call} (found : root.part? above = some node)
    (read : Call.ofNode? node = some called) (given : configs.lookup above = some config)
    (still : Still root configs above) {j : Nat} (shorter : Moves root configs call rest)
    (part : node.part? (2 :: j :: 2 :: rest) = some call) :
    ((called.injected configs above).attach config).toNode.part?
        (moved root configs above (2 :: j :: 2 :: rest)) =
      some (call.inject configs (above ++ 2 :: j :: 2 :: rest)) := by
  obtain ⟨opening, around, nodes, closing, rfl, -, -, -, -, values, -, each⟩ :=
    Call.parts_of_wellFormed (wellFormed_part? wellFormed found) read
  have below : root.part? (above ++ [2]) = some (branch .arguments around nodes) := by
    rw [part?_concat, found]
    rfl
  change (branch .arguments around nodes).part? (j :: 2 :: rest) = some call at part
  rw [part?_cons, children_branch, Option.bind_eq_some_iff] at part
  obtain ⟨written, place, within⟩ := part
  have mem := each written (List.mem_of_getElem? place)
  obtain ⟨argument, reads, -⟩ := Argument.exists_ofNode? [] [] mem.1 mem.2
  rw [part?_cons, Argument.getElem?_value reads, Option.bind_some] at within
  have stands : called.arguments[j]? = some argument := by
    rw [← values, Argument.getElem?_filterMap each, place, Option.bind_some, reads]
  have inArguments : root.part? (above ++ [2] ++ [j]) = some written := by
    rw [part?_concat, below, Option.bind_some, children_branch, place]
  have inArgument : root.part? (above ++ [2] ++ [j] ++ [2]) = some argument.value := by
    rw [part?_concat, inArguments, Option.bind_some, Argument.getElem?_value reads]
  -- Two steps of the path lie between the call and the value, and only the first of them moves.
  have value := shorter _ _ inArgument (still_of_not_call root configs inArguments
    (Call.ofNode?_of_isA (Argument.isA_of_ofNode? reads)) 2) within
  have bound : j < (called.injected configs above).arguments.length := by
    simpa [Call.injected] using (List.getElem?_eq_some_iff.1 stands).1
  rw [moved, still, moved, seat_of_given root configs found read given, moved,
    still_of_not_call root configs below rfl j 2, ← Call.seat_injected configs above,
    part?_toNode_attach _ config bound]
  simp only [Call.injected, List.getElem?_mapIdx, stands, Option.map_some, Option.bind_some]
  simpa [Argument.injected] using value

/-- A call stands in the tree after the injection where its path has moved to. -/
theorem part?_inject (wellFormed : root.wellFormed = true) {call : Node} (is : call.isA .call = true)
    (path : Address) : Moves root configs call path := by
  -- Through a configured call one step of the injection takes three steps of the path, from the call to the
  -- value of an argument, so the induction is on the length.
  induction length : path.length using Nat.strongRecOn generalizing path with | ind length ih => ?_
  intro above node found still part
  cases path with
  | nil =>
    obtain rfl := Option.some.inj part
    simp [moved]
  | cons i rest =>
    have whole := part
    rw [part?_cons, Option.bind_eq_some_iff] at part
    obtain ⟨child, here, within⟩ := part
    have below : root.part? (above ++ [i]) = some child := by
      rw [part?_concat, found, Option.bind_some, here]
    have continues (still : Still root configs (above ++ [i])) :
        (child.inject configs (above ++ [i])).part? (moved root configs (above ++ [i]) rest) =
          some (call.inject configs (above ++ i :: rest)) := by
      rw [ih rest.length (by simp [← length]) rest rfl _ _ below still within]
      simp
    have steps : moved root configs above (i :: rest) = i :: moved root configs (above ++ [i]) rest := by
      rw [moved, still i]
    have inner := wellFormed_part? wellFormed found
    obtain ⟨ungiven, same⟩ | ⟨called, config, read, given, same⟩ := inject_cases configs above inner
    next =>
      rw [steps, same, part?_injectParts, here, Option.bind_some]
      exact continues (still_of_ungiven root configs found ungiven i)
    next =>
      rw [same]
      obtain ⟨opening, around, nodes, closing, rfl, opens, closes, -, -, values, -, each⟩ :=
        Call.parts_of_wellFormed inner read
      have parts := ((wellFormed_branch _ _ _).1 inner).2
      have free {glue : Node} (mem : glue.isA .glue = true ∧ glue.wellFormed = true)
          (same : glue = child) : False :=
        absurd (isCallFree_of_glue mem.2 mem.1 rest call (same ▸ within)) (by simp [is])
      rcases i with _ | _ | _ | _ | i
      next =>
        rw [steps, Call.attach_eq, part?_toNode_callee, ← continues (still_of_last root configs (by decide))]
        obtain rfl := Option.some.inj here
        rfl
      next => exact (free ⟨opens, parts opening (by simp)⟩ (Option.some.inj here)).elim
      next =>
        obtain rfl := Option.some.inj here
        cases rest with
        | nil => exact absurd (Option.some.inj within ▸ is) (by simp [isA])
        | cons j rest =>
          rw [part?_cons, children_branch, Option.bind_eq_some_iff] at within
          obtain ⟨written, place, within⟩ := within
          have mem := each written (List.mem_of_getElem? place)
          obtain ⟨argument, reads, -⟩ := Argument.exists_ofNode? [] [] mem.1 mem.2
          obtain ⟨rest, rfl, -⟩ := Argument.part?_value mem.1 reads is within
          exact moves_argument wellFormed found read given still
            (ih rest.length (by simp [← length]; omega) rest rfl) whole
      next => exact (free ⟨closes, parts closing (by simp)⟩ (Option.some.inj here)).elim
      next => exact absurd here (by simp)

end Node

end Graft
