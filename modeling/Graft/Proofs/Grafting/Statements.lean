import Graft.Proofs.Grafting.Written
import Graft.Proofs.Tree.Order

set_option autoImplicit false

/-!
The statements of a grafted module. Each stands where it stood, behind the new imports if it is no
part of the leading section, and everything that is written keeps its order.
-/
namespace Graft

open Node

namespace Node

/-- An expression, whose parts are expressions too. -/
def HoldsNoStatement (node : Node) : Prop :=
  ∀ path part, node.part? path = some part → part.isStatement = false

theorem holdsNoStatement_of_wellFormed {node : Node} (wellFormed : node.wellFormed = true)
    (expression : node.isStatement = false) : node.HoldsNoStatement :=
  fun _ _ => isStatement_part? wellFormed expression

theorem holdsNoStatement_of_part {node : Node} (part : node.Part) : node.HoldsNoStatement :=
  holdsNoStatement_of_wellFormed part.wellFormed part.isStatement

theorem holdsNoStatement_branch {kind : Kind} (expression : kind.isStatement = false) (parens : Parens)
    {nodes : List Node} (each : ∀ node ∈ nodes, node.HoldsNoStatement) :
    (branch kind parens nodes).HoldsNoStatement := by
  intro path part found
  cases path with
  | nil => exact Option.some.inj found ▸ expression
  | cons i rest =>
    rw [part?_cons, children_branch, Option.bind_eq_some_iff] at found
    obtain ⟨child, here, found⟩ := found
    exact each child (List.mem_of_getElem? here) rest part found

theorem HoldsNoStatement.child {node child : Node} (holds : node.HoldsNoStatement) {i : Nat}
    (here : node.children[i]? = some child) : child.HoldsNoStatement := by
  intro path part found
  exact holds (i :: path) part (by rw [part?_cons, here, Option.bind_some, found])

end Node

theorem Argument.holdsNoStatement_toNode {argument : Argument}
    (value : argument.value.HoldsNoStatement) : argument.toNode.HoldsNoStatement := by
  have keyword : (keywordNode argument.keyword).HoldsNoStatement := by
    cases argument.keyword with
    | none => exact holdsNoStatement_of_part .absent
    | some keyword =>
      refine holdsNoStatement_branch rfl _ ?_
      simp [holdsNoStatement_of_part]
  refine holdsNoStatement_branch rfl _ ?_
  simp [holdsNoStatement_of_part, keyword, value]

theorem Call.holdsNoStatement_of_ofNode? {node : Node} (holds : node.HoldsNoStatement) {call : Call}
    (read : ofNode? node = some call) : call.callee.HoldsNoStatement ∧
      ∀ argument ∈ call.arguments, argument.value.HoldsNoStatement := by
  unfold ofNode? at read
  split at read
  next parens callee opening arguments closing =>
    obtain rfl := Option.some.inj read
    refine ⟨holds.child (i := 0) rfl, fun argument mem => ?_⟩
    obtain ⟨written, among, reads⟩ := List.mem_filterMap.1 mem
    obtain ⟨i, here⟩ := List.getElem?_of_mem among
    have group : arguments.HoldsNoStatement := holds.child (i := 2) rfl
    exact (group.child here).child (Argument.getElem?_value reads)
  next => exact absurd read (by simp)

theorem Call.holdsNoStatement_attach {call : Call} {config : Node}
    (callee : call.callee.HoldsNoStatement)
    (values : ∀ argument ∈ call.arguments, argument.value.HoldsNoStatement)
    (added : config.HoldsNoStatement) : (call.attach config).toNode.HoldsNoStatement := by
  have each := forall_value_attach values (holdsNoStatement_of_part (.name _ _)) added
  have arguments : (Node.plain .arguments
      ((Argument.withCommas (call.attach config).arguments).map Argument.toNode)).HoldsNoStatement := by
    refine holdsNoStatement_branch rfl _ fun node mem => ?_
    obtain ⟨argument, among, rfl⟩ := List.mem_map.1 mem
    exact Argument.holdsNoStatement_toNode (each argument among)
  rw [toNode_attach]
  refine holdsNoStatement_branch rfl _ ?_
  simp [holdsNoStatement_of_part, callee, arguments]

variable {configs : List (Address × Node)}

/-- Configurations that are expressions. -/
def AreExpressions (configs : List (Address × Node)) : Prop :=
  ∀ address config, configs.lookup address = some config → config.HoldsNoStatement

namespace Node

theorem isA_call_of_isStatement {node : Node} (is : node.isStatement = true) : node.isA .call = false := by
  cases node with
  | leaf l => rfl
  | name parens id => rfl
  | branch kind parens children => cases kind <;> first | rfl | exact absurd is (by simp [isStatement, Kind.isStatement])

theorem holdsNoStatement_inject (expressions : AreExpressions configs) {node : Node}
    (wellFormed : node.wellFormed = true) (expression : node.isStatement = false) (address : Address) :
    (node.inject configs address).HoldsNoStatement := by
  induction node generalizing address with
  | leaf l => exact holdsNoStatement_of_part (.leaf l)
  | name parens id => exact holdsNoStatement_of_part (.name parens id)
  | branch kind parens children ih =>
    have whole := wellFormed
    obtain ⟨fits, each⟩ := (wellFormed_branch _ _ _).1 wellFormed
    have calm : kind.isStatement = false := expression
    rw [Shape.fits, calm, Bool.false_or, Bool.and_eq_true, List.all_eq_true] at fits
    have inner (child : Node) (mem : child ∈ children) (place : Address) :
        (child.inject configs place).HoldsNoStatement :=
      ih child mem (each child mem) (by simpa using fits.1 child mem) place
    have parts : (injectParts configs address (branch kind parens children)).HoldsNoStatement := by
      refine holdsNoStatement_branch calm parens fun node mem => ?_
      obtain ⟨i, child, here, rfl⟩ := (mem_injectFrom configs address).1 mem
      exact inner child (List.mem_of_getElem? here) _
    obtain ⟨-, same⟩ | ⟨call, config, read, given, same⟩ := inject_cases configs address whole
    next => rwa [same]
    next =>
      rw [same]
      obtain ⟨callee, values⟩ := Call.holdsNoStatement_of_ofNode? parts
        (Call.ofNode?_injectParts configs address whole read)
      exact Call.holdsNoStatement_attach callee values (expressions address config given)

theorem part?_inject_of_isStatement {node statement : Node} {address path : Address}
    (wellFormed : node.wellFormed = true) (found : node.part? path = some statement)
    (is : statement.isStatement = true) :
    (node.inject configs address).part? path = some (statement.inject configs (address ++ path)) := by
  induction path generalizing node address with
  | nil =>
    obtain rfl := Option.some.inj found
    simp
  | cons i rest ih =>
    have holds : node.isStatement = true := by
      refine Bool.not_eq_false _ ▸ fun expression => ?_
      exact absurd is (by simp [isStatement_part? wellFormed expression found])
    rw [part?_cons, Option.bind_eq_some_iff] at found
    obtain ⟨child, here, found⟩ := found
    have inner := wellFormed_part? wellFormed (show node.part? [i] = some child by simp [part?_cons, here])
    rw [inject_of_isA configs address (isA_call_of_isStatement holds), part?_injectParts, here,
      Option.bind_some, ih inner found]
    simp

/-- Every statement that is written inside a tree with configurations stood there before. -/
theorem exists_part?_of_inject (expressions : AreExpressions configs) {node statement : Node}
    {address path : Address} (wellFormed : node.wellFormed = true)
    (found : (node.inject configs address).part? path = some statement)
    (is : statement.isStatement = true) :
    ∃ original, node.part? path = some original ∧
      statement = original.inject configs (address ++ path) := by
  induction path generalizing node address with
  | nil => exact ⟨node, rfl, by simpa using (Option.some.inj found).symm⟩
  | cons i rest ih =>
    have holds : node.isStatement = true := by
      refine Bool.not_eq_false _ ▸ fun expression => ?_
      have calm := holdsNoStatement_inject expressions wellFormed expression address _ _ found
      exact absurd is (by simp [calm])
    rw [inject_of_isA configs address (isA_call_of_isStatement holds), part?_injectParts,
      Option.bind_eq_some_iff] at found
    obtain ⟨child, here, found⟩ := found
    have inner := wellFormed_part? wellFormed (show node.part? [i] = some child by simp [part?_cons, here])
    obtain ⟨original, part, same⟩ := ih inner found
    exact ⟨original, by rw [part?_cons, here, Option.bind_some, part], by simpa using same⟩

end Node

theorem Call.seat_lt_seat (call : Call) {i j : Nat} : call.seat i < call.seat j ↔ i < j := by
  unfold seat
  cases call.leavesNoPlace
  next =>
    simp only [Bool.false_or, decide_eq_true_eq]
    split <;> split <;> omega
  next => rfl

namespace Node

variable (root : Node)

theorem seat_lt_seat (above : Address) {i j : Nat} :
    seat root configs above i < seat root configs above j ↔ i < j := by
  unfold seat
  split
  next call _ => exact call.seat_lt_seat
  next => rfl

theorem precedes_moved (above first second : Address) :
    (moved root configs above first).precedes (moved root configs above second) =
      first.precedes second := by
  induction first generalizing above second with
  | nil => rfl
  | cons i first ih =>
    cases second with
    | nil => rfl
    | cons j second =>
      refine Address.precedes_congr (seat_lt_seat root above) (seat_lt_seat root above) ?_
      rintro rfl
      exact ih _ second

variable {root}

theorem seat_inj {above : Address} {i j : Nat} (same : seat root configs above i = seat root configs above j) :
    i = j := by
  have first := @seat_lt_seat configs root above i j
  have second := @seat_lt_seat configs root above j i
  omega

theorem moved_inj {above first second : Address}
    (same : moved root configs above first = moved root configs above second) : first = second := by
  induction first generalizing above second with
  | nil =>
    cases second with
    | nil => rfl
    | cons j second => exact absurd same (by simp [moved])
  | cons i first ih =>
    cases second with
    | nil => exact absurd same (by simp [moved])
    | cons j second =>
      rw [moved, moved, List.cons.injEq] at same
      obtain rfl := seat_inj same.1
      rw [ih same.2]

/-- Nothing moves on the way to a statement. -/
theorem moved_of_isStatement (wellFormed : root.wellFormed = true) {above path : Address}
    {statement : Node} (found : root.part? (above ++ path) = some statement)
    (is : statement.isStatement = true) : moved root configs above path = path := by
  induction path generalizing above with
  | nil => rfl
  | cons i rest ih =>
    obtain ⟨node, here, below⟩ := Option.bind_eq_some_iff.1 ((part?_append above _ root).symm.trans found)
    have none : givenCall? root configs above = none := by
      refine givenCall?_of_isA wellFormed here (Bool.eq_false_iff.2 fun arguments => ?_)
      obtain ⟨parens, nodes, rfl⟩ := exists_branch arguments
      have calm := isStatement_part? (wellFormed_part? wellFormed here) rfl below
      exact absurd is (by simp [calm])
    rw [moved, seat_of_none none, ih (by simpa using found)]

end Node

namespace Module

theorem precedes_shifted (module : Module) (count : Nat) (first second : Address) :
    (module.shifted count first).precedes (module.shifted count second) = first.precedes second := by
  cases first with
  | nil => rfl
  | cons i first =>
    cases second with
    | nil => rfl
    | cons j second =>
      refine Address.precedes_congr ?_ ?_ fun _ => rfl
      next => split <;> split <;> omega
      next => split <;> split <;> omega

variable {module : Module} {given : List (Address × Node)} {count : Nat}

theorem shifted_inj {first second : Address} (same : module.shifted count first = module.shifted count second) :
    first = second := by
  cases first with
  | nil =>
    cases second with
    | nil => rfl
    | cons j second => exact absurd same (by simp [shifted])
  | cons i first =>
    cases second with
    | nil => exact absurd same (by simp [shifted])
    | cons j second =>
      rw [shifted, shifted, List.cons.injEq] at same
      obtain ⟨step, rfl⟩ := same
      have stands : i = j := by split at step <;> split at step <;> omega
      rw [stands]

theorem placed_inj {first second : Address}
    (same : module.placed given count first = module.placed given count second) : first = second :=
  moved_inj (shifted_inj same)

end Module

end Graft
