import Graft.Proofs.Grafting.Grammatical
import Graft.Proofs.Grafting.Leading
import Graft.Proofs.Grafting.Report
import Graft.Proofs.Grafting.Statements
import Graft.Proofs.Tree.Without
import Mathlib.Data.List.Nodup

set_option autoImplicit false

/-!
What graftings leave as it was. Without the new imports and the new arguments, a module that has been
written is the module before, but for the commas after the last arguments.
-/
namespace Graft

open Node

/-- Where the comma after the last argument stands. A use without arguments has none there. -/
def Use.lastComma (use : Use) : Address := use.address ++ [2, use.call.arguments.length - 1, 3]

/-- Where the new statements and arguments stand. -/
def Module.inserted (module : Module) (given : List (Address × Node)) (count : Nat) (uses : List Use) :
    List Address :=
  (List.range' (module.leadingEnd + 1) count).map (fun i => [i]) ++
    uses.flatMap fun use => (List.range' use.call.firstAdded use.call.addedCount).map fun i =>
      module.placed given count (use.address ++ [2]) ++ [i]

/-- What is new, and the commas after the last arguments, which a new argument may have taken over. -/
def Module.additions (module : Module) (given : List (Address × Node)) (count : Nat) (uses : List Use) :
    List Address :=
  module.inserted given count uses ++ (uses.map Use.lastComma).map (module.placed given count)

theorem Argument.inject_toNode (configs : List (Address × Node)) (address : Address) (argument : Argument) :
    argument.toNode.inject configs address = (argument.injected configs address).toNode := by
  have keyword (place : Address) :
      (keywordNode argument.keyword).inject configs place = keywordNode argument.keyword := by
    obtain ⟨part, word⟩ := Call.keywordNode_part argument.keyword
    exact inject_of_isCallFree configs place
      (word.elim isCallFree_of_isAbsent (isCallFree_of_isQuiet part.wellFormed rfl))
  rw [toNode, plain, inject_of_not_call configs address (by decide)]
  simp only [inject.injectFrom, inject_glued, keyword]
  rfl

theorem Argument.without_toNode {gone : List Address} {address : Address} (out : address ++ [3] ∈ gone)
    (argument : Argument) (comma : List Leaf) :
    ({ argument with comma } : Argument).toNode.without gone address = argument.toNode.without gone address := by
  have third : address ++ [0 + 1 + 1 + 1] ∈ gone := out
  simp only [toNode, plain, without, without.withoutFrom, if_pos third]

theorem Call.toNode_eq {call : Call} (separated : Argument.areSeparated call.arguments = true) :
    call.toNode = .branch .call call.parens [call.callee, .glue call.opening,
      .plain .arguments (call.arguments.map Argument.toNode), .glue call.closing] := by
  rw [toNode, Argument.withCommas_of_areSeparated separated]

theorem Call.areSeparated_injected (configs : List (Address × Node)) (address : Address) {call : Call}
    (separated : Argument.areSeparated call.arguments = true) :
    Argument.areSeparated (call.injected configs address).arguments = true :=
  (Argument.areSeparated_injected configs _ call.arguments).trans separated

/-- Uses of a tree that are given configurations, and nothing else is given one. -/
structure Gives (root : Node) (given : List (Address × Node)) (uses : List Use) : Prop where
  wellFormed : root.wellFormed = true
  stands : ∀ use ∈ uses, root.part? use.address = some use.node ∧ Call.ofNode? use.node = some use.call
  gets : ∀ use ∈ uses, ∃ config, given.lookup use.address = some config
  only : ∀ address config, given.lookup address = some config → ∃ use ∈ uses, use.address = address

namespace Gives

theorem concat_inj {first second : Address} {i j : Nat} : first ++ [i] = second ++ [j] ↔ first = second ∧ i = j := by
  simp

variable {module : Module} {given : List (Address × Node)} {uses : List Use}
  (gives : Gives module.root given uses) {count : Nat} {above : Address}

theorem lastComma_eq (use : Use) :
    use.lastComma = use.address ++ [2] ++ [use.call.arguments.length - 1] ++ [3] := by
  simp [Use.lastComma]

theorem mem_lastCommas {i : Nat} : above ++ [i] ∈ uses.map Use.lastComma ↔
    ∃ use ∈ uses, use.address ++ [2] ++ [use.call.arguments.length - 1] = above ∧ 3 = i := by
  simp only [List.mem_map, lastComma_eq, concat_inj]

include gives

theorem exists_arguments {use : Use} (mem : use ∈ uses) :
    ∃ around nodes, module.root.part? (use.address ++ [2]) = some (.branch .arguments around nodes) := by
  obtain ⟨found, called⟩ := gives.stands use mem
  obtain ⟨opening, around, nodes, closing, shape, -⟩ :=
    Call.parts_of_wellFormed (wellFormed_part? gives.wellFormed found) called
  exact ⟨around, nodes, by rw [part?_concat, found, shape]; rfl⟩

theorem givenCall?_of_mem {use : Use} (mem : use ∈ uses) :
    givenCall? module.root given (use.address ++ [2]) = some use.call := by
  obtain ⟨found, called⟩ := gives.stands use mem
  obtain ⟨config, gift⟩ := gives.gets use mem
  simp [givenCall?, gift, found, called]

theorem exists_use {call : Call} (found : givenCall? module.root given above = some call) :
    ∃ use ∈ uses, above = use.address ++ [2] ∧ call = use.call := by
  have whole := found
  unfold givenCall? at found
  split at found
  next _ config last gift =>
    obtain ⟨use, mem, place⟩ := gives.only _ config gift
    obtain ⟨front, rfl⟩ := List.getLast?_eq_some_iff.1 last
    rw [List.dropLast_concat] at place
    rw [← place, gives.givenCall?_of_mem mem] at whole
    exact ⟨use, mem, by rw [place], (Option.some.inj whole).symm⟩
  next => exact absurd found (by simp)

theorem mem_inserted {j : Nat} : module.placed given count above ++ [j] ∈ module.inserted given count uses ↔
    above = [] ∧ module.leadingEnd + 1 ≤ j ∧ j < module.leadingEnd + 1 + count ∨
      ∃ call, givenCall? module.root given above = some call ∧
        call.firstAdded ≤ j ∧ j < call.firstAdded + call.addedCount := by
  simp only [Module.inserted, List.mem_append, List.mem_map, List.mem_flatMap, List.mem_range'_1]
  refine or_congr ⟨?_, ?_⟩ ⟨?_, ?_⟩
  next =>
    -- Addresses keep their lengths when they move, so this one is at the top.
    rintro ⟨i, bound, same⟩
    obtain ⟨top, rfl⟩ := concat_inj.1 (show [] ++ [i] = module.placed given count above ++ [j] from same)
    exact ⟨(Module.placed_inj (show module.placed given count [] = _ from top)).symm, bound⟩
  next =>
    rintro ⟨rfl, bound⟩
    exact ⟨j, bound, rfl⟩
  next =>
    rintro ⟨use, mem, i, bound, same⟩
    obtain ⟨place, rfl⟩ := concat_inj.1 same
    exact ⟨use.call, Module.placed_inj place ▸ gives.givenCall?_of_mem mem, bound⟩
  next =>
    rintro ⟨call, found, bound⟩
    obtain ⟨use, mem, rfl, rfl⟩ := gives.exists_use found
    exact ⟨use, mem, j, bound, rfl⟩

theorem mem_placed_lastCommas {j : Nat} :
    module.placed given count above ++ [j] ∈ (uses.map Use.lastComma).map (module.placed given count) ↔
      above ++ [j] ∈ uses.map Use.lastComma := by
  rw [mem_lastCommas, List.map_map, List.mem_map]
  refine exists_congr fun use => and_congr_right fun mem => ?_
  obtain ⟨around, nodes, stands⟩ := gives.exists_arguments mem
  -- Inside an argument nothing moves, so its comma keeps the fourth place.
  have still := still_of_not_call module.root given stands rfl (use.call.arguments.length - 1) 3
  rw [Function.comp_apply, lastComma_eq, Module.placed_concat _ _ _ (by simp), still, concat_inj]
  exact and_congr_left fun _ => ⟨Module.placed_inj, congrArg _⟩

theorem mem_additions {j : Nat} (apart : above ++ [j] ∉ uses.map Use.lastComma) :
    module.placed given count above ++ [j] ∈ module.additions given count uses ↔
      above = [] ∧ module.leadingEnd + 1 ≤ j ∧ j < module.leadingEnd + 1 + count ∨
        ∃ call, givenCall? module.root given above = some call ∧
          call.firstAdded ≤ j ∧ j < call.firstAdded + call.addedCount := by
  rw [Module.additions, List.mem_append, gives.mem_inserted, gives.mem_placed_lastCommas,
    iff_false_intro apart, or_false]

theorem mem_additions_of_none (inside : above ≠ []) (none : givenCall? module.root given above = none)
    (j : Nat) : module.placed given count above ++ [j] ∈ module.additions given count uses ↔
      above ++ [j] ∈ uses.map Use.lastComma := by
  rw [Module.additions, List.mem_append, gives.mem_inserted, gives.mem_placed_lastCommas]
  simp [inside, none]

omit gives in
/-- Without the additions, a part of the written module is as it was. -/
def Restores (module : Module) (given : List (Address × Node)) (uses : List Use) (count : Nat)
    (node : Node) : Prop :=
  ∀ above ≠ [], module.root.part? above = some node → givenCall? module.root given above = none →
    (node.inject given above).without (module.additions given count uses) (module.placed given count above) =
      node.without (uses.map Use.lastComma) above

omit gives in
theorem Restores.child {kind : Kind} {parens : Parens} {children : List Node} {child : Node} {i : Nat}
    (restores : Restores module given uses count child) (inside : above ≠ [])
    (found : module.root.part? above = some (.branch kind parens children)) (here : children[i]? = some child)
    (still : seat module.root given above i = i) (none : givenCall? module.root given (above ++ [i]) = none) :
    (child.inject given (above ++ [i])).without (module.additions given count uses)
        (module.placed given count above ++ [i]) = child.without (uses.map Use.lastComma) (above ++ [i]) := by
  have place : module.placed given count above ++ [i] = module.placed given count (above ++ [i]) := by
    rw [Module.placed_concat _ _ _ inside, still]
  rw [place]
  exact restores _ (by simp) (by rw [part?_concat, found, Option.bind_some, children_branch, here]) none

theorem restores_parts {kind : Kind} {parens : Parens} {children : List Node} (inside : above ≠ [])
    (found : module.root.part? above = some (.branch kind parens children))
    (none : givenCall? module.root given above = none)
    (below : ∀ i, givenCall? module.root given (above ++ [i]) = Option.none)
    (each : ∀ child ∈ children, Restores module given uses count child) :
    (injectParts given above (.branch kind parens children)).without (module.additions given count uses)
        (module.placed given count above) =
      (Node.branch kind parens children).without (uses.map Use.lastComma) above := by
  simp only [injectParts, without]
  congr 1
  refine withoutFrom_congr (by simp) (fun k _ => ?_) fun k new old here there => ?_
  next =>
    rw [Nat.zero_add]
    exact gives.mem_additions_of_none inside none k
  next =>
    rw [getElem?_injectFrom, there, Option.map_some, Option.some.injEq] at here
    obtain rfl := here
    rw [Nat.zero_add]
    exact (each old (List.mem_of_getElem? there)).child inside found there (seat_of_none none k) (below k)

section

variable {call : Call} {config : Node} (inside : above ≠ [])
  (found : module.root.part? above = some call.toNode) (called : Call.ofNode? call.toNode = some call)
  (separated : Argument.areSeparated call.arguments = true) (gift : given.lookup above = some config)
  (none : givenCall? module.root given above = none)

include found in
theorem not_lastComma (k : Nat) : above ++ [2] ++ [k] ∉ uses.map Use.lastComma := by
  -- Else the argument list of another use would stand where this call does.
  rw [mem_lastCommas]
  rintro ⟨use, mem, place, -⟩
  obtain ⟨around, nodes, stands⟩ := gives.exists_arguments mem
  rw [concat_inj] at place
  rw [place.1, found] at stands
  exact absurd stands (by simp [Call.toNode])

include found called separated gift in
theorem restores_argument {k : Nat} {argument written : Argument} (there : call.arguments[k]? = some argument)
    (here : (Argument.withCommas ((call.injected given above).attach config).arguments)[call.seat k]? =
      some written) (restores : Restores module given uses count argument.toNode) :
    written.toNode.without (module.additions given count uses)
        (module.placed given count (above ++ [2]) ++ [call.seat k]) =
      argument.toNode.without (uses.map Use.lastComma) (above ++ [2] ++ [k]) := by
  have given? : givenCall? module.root given (above ++ [2]) = some call := by
    simp [givenCall?, gift, found, called]
  have listed : module.root.part? (above ++ [2]) = some (.plain .arguments (call.arguments.map Argument.toNode)) := by
    rw [part?_concat, found, Option.bind_some, Call.toNode_eq separated]
    rfl
  have place : module.placed given count (above ++ [2]) ++ [call.seat k] =
      module.placed given count (above ++ [2] ++ [k]) := by
    have moves := module.placed_concat given count (show above ++ [2] ≠ [] by simp) k
    rw [moves, seat, given?]
  have kept := restores (above ++ [2] ++ [k]) (by simp)
    (by rw [part?_concat, listed]; simp [plain, there]) (givenCall?_of_not_call listed rfl k)
  have own : (call.injected given above).arguments[k]? =
      some (argument.injected given (above ++ [2] ++ [k])) := by
    simp [Call.injected, there]
  obtain ⟨_, again, same, early⟩ :=
    Call.exists_written (Call.areSeparated_injected given above separated) config own
  rw [Call.seat_injected, here] at again
  obtain rfl := Option.some.inj again
  -- What is written of the argument is what the injection makes of it, but for its comma.
  rw [← kept, place, Argument.inject_toNode]
  by_cases next : k + 1 < call.arguments.length
  next => rw [early (by simpa [Call.injected] using next)]
  next =>
    -- The last argument may have given its comma to a new one.
    obtain ⟨use, mem, list, rfl⟩ := gives.exists_use given?
    have bound := (List.getElem?_eq_some_iff.1 there).1
    have last : above ++ [2] ++ [k] ++ [3] ∈ uses.map Use.lastComma :=
      mem_lastCommas.2 ⟨use, mem, by rw [list, show use.call.arguments.length - 1 = k by omega], rfl⟩
    have out : module.placed given count (above ++ [2] ++ [k]) ++ [3] ∈ module.additions given count uses :=
      List.mem_append_right _ (gives.mem_placed_lastCommas.2 last)
    rw [← Argument.without_toNode out written [], same, Argument.without_toNode out]

include found called separated gift in
theorem restores_arguments
    (each : ∀ argument ∈ call.arguments, Restores module given uses count argument.toNode) :
    (Node.plain .arguments ((Argument.withCommas
        ((call.injected given above).attach config).arguments).map Argument.toNode)).without
          (module.additions given count uses) (module.placed given count (above ++ [2])) =
      (Node.plain .arguments (call.arguments.map Argument.toNode)).without (uses.map Use.lastComma)
        (above ++ [2]) := by
  have given? : givenCall? module.root given (above ++ [2]) = some call := by
    simp [givenCall?, gift, found, called]
  have more : (call.injected given above).addedCount = call.addedCount :=
    Call.addedCount_congr (call.map_outline_injected given above)
  have length : (call.injected given above).arguments.length = call.arguments.length := by
    simp [Call.injected]
  have marked (j : Nat) : module.placed given count (above ++ [2]) ++ [j] ∈ module.additions given count uses ↔
      call.firstAdded ≤ j ∧ j < call.firstAdded + call.addedCount := by
    rw [gives.mem_additions (gives.not_lastComma found j)]
    simp [given?]
  simp only [plain, without]
  congr 1
  refine @withoutFrom_of_cut _ _ _ _ call.firstAdded call.addedCount _ _ ?_ ?_ ?_ ?_ ?_
  next => rw [List.length_map, List.length_map, Call.length_attach, more, length]
  next => simpa using call.firstAdded_le
  next => exact fun k late early => (marked k).2 ⟨late, early⟩
  next =>
    intro k _
    rw [marked, iff_false_right (gives.not_lastComma found k)]
    split <;> omega
  next =>
    intro k new old here there
    rw [List.getElem?_map, Option.map_eq_some_iff] at here there
    obtain ⟨written, here, rfl⟩ := here
    obtain ⟨argument, there, rfl⟩ := there
    rw [← call.seat_eq (List.getElem?_eq_some_iff.1 there).1] at here ⊢
    exact gives.restores_argument found called separated gift there here
      (each argument (List.mem_of_getElem? there))

include inside found called separated gift none in
theorem restores_call
    (each : ∀ i path part, call.toNode.part? (i :: path) = some part → Restores module given uses count part) :
    ((call.injected given above).attach config).toNode.without (module.additions given count uses)
        (module.placed given count above) = call.toNode.without (uses.map Use.lastComma) above := by
  have shape := Call.toNode_eq separated
  have direct {i : Nat} {child : Node} (other : i ≠ 2) (here : call.toNode.children[i]? = some child) :
      (child.inject given (above ++ [i])).without (module.additions given count uses)
          (module.placed given count above ++ [i]) = child.without (uses.map Use.lastComma) (above ++ [i]) :=
    (each i [] child (by rw [part?_cons, here]; rfl)).child inside found here
      (seat_of_none none i) (givenCall?_of_last other)
  have arguments := gives.restores_arguments found called separated gift fun argument mem => by
    obtain ⟨k, here⟩ := List.getElem?_of_mem mem
    exact each 2 [k] argument.toNode (by rw [shape]; simp [part?_cons, plain, here])
  rw [Module.placed_concat _ _ _ inside, seat_of_none none] at arguments
  rw [Call.toNode_attach, shape]
  simp only [without]
  congr 1
  refine withoutFrom_congr rfl (fun k _ => ?_) fun k new old here there => ?_
  next =>
    rw [Nat.zero_add]
    exact gives.mem_additions_of_none inside none k
  next =>
    rw [Nat.zero_add]
    -- Only the argument list moves its parts.
    rcases k with _ | _ | _ | _ | k
    next =>
      obtain rfl := Option.some.inj here
      obtain rfl := Option.some.inj there
      exact direct (by decide) rfl
    next =>
      obtain rfl := Option.some.inj here
      obtain rfl := Option.some.inj there
      have kept := direct (show 1 ≠ 2 by decide) rfl
      rwa [inject_glued] at kept
    next =>
      obtain rfl := Option.some.inj here
      obtain rfl := Option.some.inj there
      exact arguments
    next =>
      obtain rfl := Option.some.inj here
      obtain rfl := Option.some.inj there
      have kept := direct (show 3 ≠ 2 by decide) rfl
      rwa [inject_glued] at kept
    next => exact absurd there (by simp)

end

theorem restores (node : Node) : Restores module given uses count node := by
  -- All that is below a node is needed: the arguments of a call are two steps further down.
  induction node using inductParts with | each node ih => ?_
  intro above inside found none
  have each : ∀ child ∈ node.children, Restores module given uses count child := by
    intro child mem
    obtain ⟨i, here⟩ := List.getElem?_of_mem mem
    exact ih i [] child (by rw [part?_cons, here]; rfl)
  cases node with
  | leaf l => rfl
  | name parens id => rfl
  | branch kind parens children =>
    have wellFormed := wellFormed_part? gives.wellFormed found
    obtain ⟨ungiven, same⟩ | ⟨call, config, called, gift, same⟩ := inject_cases given above wellFormed
    next =>
      rw [same]
      exact gives.restores_parts inside found none (givenCall?_of_ungiven found ungiven) each
    next =>
      obtain ⟨whole, separated⟩ := Call.toNode_of_ofNode? wellFormed called
      rw [same]
      rw [← whole] at found called ih ⊢
      exact gives.restores_call inside found called separated gift none ih

theorem restored (lines : List Node) :
    ((module.inject given).insertLeading lines).root.without
        (module.additions given lines.length uses) [] =
      module.root.without (uses.map Use.lastComma) [] := by
  have apart (k : Nat) : [] ++ [k] ∉ uses.map Use.lastComma := by
    rw [mem_lastCommas]
    simp
  have marked (j : Nat) : [] ++ [j] ∈ module.additions given lines.length uses ↔
      module.leadingEnd + 1 ≤ j ∧ j < module.leadingEnd + 1 + lines.length := by
    have top : givenCall? module.root given [] = none := rfl
    refine (gives.mem_additions (apart j)).trans ?_
    simp [top]
  have bound : module.leadingEnd + 1 ≤ module.root.children.length := by
    have reach := module.leadingEnd_le
    simp [Module.root, plain]
    omega
  suffices same : without.withoutFrom (module.additions given lines.length uses) [] 0
      ((module.inject given).insertLeading lines).root.children =
        without.withoutFrom (uses.map Use.lastComma) [] 0 module.root.children from
    congrArg (Node.branch .module {}) same
  -- The lines are taken out in one piece, at the end of the leading section and behind the opening of the root.
  refine @withoutFrom_of_cut _ _ _ _ (module.leadingEnd + 1) lines.length _ _ ?_ bound ?_ ?_ ?_
  next =>
    rw [Module.children_insertLeading, Module.children_inject, Module.leadingEnd_inject]
    simp
    omega
  next => exact fun k late early => (marked k).2 ⟨late, early⟩
  next =>
    intro k _
    rw [marked, iff_false_right (apart k)]
    split <;> omega
  next =>
    intro k new old here there
    have place : module.placed given lines.length [k] =
        [if k < module.leadingEnd + 1 then k else k + lines.length] := by
      simp only [Module.placed_single, Module.leadingEnd_inject, Nat.lt_succ_iff]
    have shift : (module.inject given).shifted lines.length [k] =
        [if k < module.leadingEnd + 1 then k else k + lines.length] := place
    have stands : module.root.part? [k] = some old := by rw [part?_cons, there]; rfl
    have written := (module.inject given).part?_insertLeading lines (show [k] ≠ [] by simp)
    rw [shift, part?_cons, part?_cons, here, Module.children_inject, getElem?_injectFrom, there] at written
    obtain rfl : new = old.inject given ([] ++ [k]) := by simpa using written
    have kept : Restores module given uses lines.length old := gives.restores old
    have restored := kept ([] ++ [k]) (by simp) stands (givenCall?_of_not_call rfl rfl k)
    exact Eq.trans (congrArg (without _ · _) place.symm) restored

end Gives

variable {settings : Settings} {file : Option String}

/-- The uses that a grafting gives configurations to. -/
def Module.graftedUses (module : Module) (settings : Settings) (file : Option String)
    (survey : Scope.Survey) : List Use :=
  (module.uses settings file survey).filter (!·.isSkipped)

theorem Module.mem_graftedUses {module : Module} {survey : Scope.Survey} {use : Use} :
    use ∈ module.graftedUses settings file survey ↔
      use ∈ module.uses settings file survey ∧ use.isSkipped = false := by
  simp [graftedUses]

theorem Grafts.gives {tally : Tally} {module : Module} {survey : Scope.Survey}
    {given : List (Address × Node)} {added : List (Export × String)} {lines : List Node}
    (wellFormed : module.wellFormed = true)
    (grafts : Grafts settings file tally module survey given added lines) :
    Gives module.root given (module.graftedUses settings file survey) where
  wellFormed := Module.wellFormed_root wellFormed
  stands use mem := by
    obtain ⟨found, called, -⟩ := Module.mem_uses (Module.mem_graftedUses.1 mem).1
    exact ⟨found, called⟩
  gets use mem := by
    obtain ⟨among, kept⟩ := Module.mem_graftedUses.1 mem
    exact grafts.configures.lookup_of_mem among kept
  only address config gift := by
    obtain ⟨-, use, mem, kept, place⟩ := grafts.configures.of_lookup gift
    exact ⟨use, Module.mem_graftedUses.2 ⟨mem, kept⟩, place⟩

theorem Grafts.own {tally : Tally} {module : Module} {survey : Scope.Survey}
    {given : List (Address × Node)} {added : List (Export × String)} {lines : List Node}
    (grafts : Grafts settings file tally module survey given added lines) {use : Use} {config : Node}
    (mem : use ∈ module.uses settings file survey) (gift : given.lookup use.address = some config) :
    ∃ classified, use.classify settings = .ok classified ∧
      Work.Names settings classified.decision ((Registry.ofModule module survey).1.known ++ added) config := by
  obtain ⟨before, after, place, -⟩ := List.lookup_eq_some_iff.1 gift
  obtain ⟨other, among, -, same, classified, known, names⟩ :=
    grafts.configures.named (use.address, config) (by simp [place])
  -- No two uses have one address.
  have single : ((module.uses settings file survey).map Use.address).Nodup := by
    refine List.Pairwise.imp ?_ (module.uses_ascend survey)
    rintro place _ less rfl
    exact List.lt_irrefl place less
  obtain rfl := List.inj_on_of_nodup_map single among mem same
  exact ⟨classified, known, names⟩

/-- All that a grafting changes: each use that it grafts gets its own configuration, and the imports that
the module lacks are put behind its leading section. What else was written is still there. -/
structure Changes (settings : Settings) (file : Option String) (module : Module) (survey : Scope.Survey)
    (given : List (Address × Node)) (added : List (Export × String)) (lines : List Node)
    (written : Module) : Prop where
  addresses : given.map (·.1) = (module.graftedUses settings file survey).map Use.address
  once : (given.map (·.1)).Pairwise (· < ·)
  attached : ∀ use ∈ module.graftedUses settings file survey, ∃ classified config,
    use.classify settings = .ok classified ∧
      Work.Names settings classified.decision ((Registry.ofModule module survey).1.known ++ added) config ∧
        given.lookup use.address = some config ∧
          written.root.part? (module.placed given lines.length use.address) =
            some ((use.call.injected given use.address).attach config).toNode
  leadingEnd : (module.inject given).leadingEnd = module.leadingEnd
  body : written = { module with
    body := (module.inject given).body.take module.leadingEnd ++ lines ++
      (module.inject given).body.drop module.leadingEnd }
  firsts : added.map (·.1) = Settings.distinct (((module.uses settings file survey).flatMap
    (Use.needs settings)).filter (Registry.ofModule module survey).1.Lacks)
  imports : List.Forall₂ (fun line entry => ImportsAs line entry.1 entry.2) lines added
  restored : written.root.without
      (module.additions given lines.length (module.graftedUses settings file survey)) [] =
    module.root.without ((module.graftedUses settings file survey).map Use.lastComma) []

theorem Grafts.imports {tally : Tally} {module : Module} {survey : Scope.Survey}
    {given : List (Address × Node)} {added : List (Export × String)} {lines : List Node}
    (grafts : Grafts settings file tally module survey given added lines) :
    List.Forall₂ (fun line entry => ImportsAs line entry.1 entry.2) lines added := by
  have spelled := grafts.lines
  have importable := grafts.importable
  clear grafts
  induction lines generalizing added with
  | nil =>
    obtain rfl : added = [] := by simpa using spelled.symm
    exact .nil
  | cons line lines ih =>
    cases added with
    | nil => exact absurd spelled (by simp)
    | cons entry added =>
      simp only [List.map_cons, List.cons.injEq] at spelled
      obtain ⟨valid, others⟩ := List.forall_mem_cons.1 importable
      obtain ⟨made, same, imports⟩ := importLine_eq_ok valid.1 valid.2
      obtain rfl : line = made := Except.ok.inj (spelled.1.trans same)
      exact .cons imports (ih spelled.2 others)

/-- A grafting that writes a module changes nothing but the calls that it configures and its imports. -/
theorem graft_changes {tally : Tally} {module written : Module} (wellFormed : module.wellFormed = true)
    (done : (graft settings file tally module).result = .ok (some written)) :
    ∃ survey given added lines, Scope.survey module = .ok survey ∧
      Changes settings file module survey given added lines written := by
  obtain ⟨survey, given, added, lines, surveyed, grafts, firsts, -⟩ := grafts_of_ok_in_order wellFormed done
  have result := grafts.result
  rw [done, Except.ok.injEq] at result
  obtain rfl : written = (module.inject given).insertLeading lines := by
    split at result
    next => exact absurd result (by simp)
    next => exact Option.some.inj result
  refine ⟨survey, given, added, lines, surveyed, grafts.configures.addresses, ?_, fun use mem => ?_,
    Module.leadingEnd_inject module, ?_, firsts, grafts.imports, (grafts.gives wellFormed).restored lines⟩
  next =>
    rw [grafts.configures.addresses]
    exact (module.uses_ascend survey).sublist (List.filter_sublist.map _)
  next =>
    obtain ⟨among, kept⟩ := Module.mem_graftedUses.1 mem
    obtain ⟨config, gift, stands⟩ := grafts.attached wellFormed among kept
    obtain ⟨classified, known, names⟩ := grafts.own among gift
    exact ⟨classified, config, known, names, gift, stands⟩
  next =>
    rw [← Module.leadingEnd_inject module]
    rfl

/-- One use is written inside the arguments of another, which leave a place but end in a comma. -/
theorem graft_changes_nested_uses : ∃ module written survey given added lines,
    Module.parse? "from formkit.vue import FormKit\nFormKit(a, FormKit(el),)\n" = some module ∧
      (graft .standard none {} module).result = .ok (some written) ∧
        Scope.survey module = .ok survey ∧
          Changes .standard none module survey given added lines written ∧
            (module.graftedUses .standard none survey).length = 2 := by
  have check : ((Module.parse? "from formkit.vue import FormKit\nFormKit(a, FormKit(el),)\n").bind
      fun module => (Scope.survey module).toOption.bind fun survey =>
        (graft .standard none {} module).result.toOption.join.map fun _ =>
          (module.graftedUses .standard none survey).length) = some 2 := by
    decide +kernel
  obtain ⟨module, parsed, check⟩ := Option.bind_eq_some_iff.1 check
  obtain ⟨survey, surveyed, check⟩ := Option.bind_eq_some_iff.1 check
  obtain ⟨written, done, two⟩ := Option.map_eq_some_iff.1 check
  have made : (graft .standard none {} module).result = .ok (some written) :=
    eq_ok_of_toOption (Option.join_eq_some_iff.1 done)
  obtain ⟨found, given, added, lines, same, changes⟩ :=
    graft_changes (Module.wellFormed_of_parse? parsed) made
  obtain rfl := Except.ok.inj ((eq_ok_of_toOption surveyed).symm.trans same)
  exact ⟨module, written, survey, given, added, lines, parsed, made, same, changes, two⟩

end Graft
