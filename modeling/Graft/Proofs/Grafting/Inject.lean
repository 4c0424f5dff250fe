import Graft.Grafting
import Graft.Proofs.Tree.CallFree
import Graft.Proofs.Tree.Call

set_option autoImplicit false

/-!
What injecting configurations leaves as it was: everything but the arguments of the calls that get
one.
-/
namespace Graft.Node

variable (configs : List (Address × Node)) (address : Address)

/-- A node whose parts have their configurations, before it gets its own. -/
def injectParts : Node → Node
  | .leaf l => .leaf l
  | .name parens id => .name parens id
  | .branch kind parens children =>
    .branch kind parens (inject.injectFrom configs address 0 children)

theorem attached_of_not_call {node : Node} (other : Call.ofNode? node = none) (config : Node) :
    node.attached config = node := by
  simp [attached, other]

theorem attached_of_call {node : Node} {call : Call} (called : Call.ofNode? node = some call)
    (config : Node) : node.attached config = (call.attach config).toNode := by
  simp [attached, called]

theorem isA_call_of_ofNode? {node : Node} {call : Call} (called : Call.ofNode? node = some call) :
    ∃ callee opening arguments closing, node = .branch .call call.parens
      [callee, opening, arguments, closing] := by
  unfold Call.ofNode? at called
  split at called
  next => exact ⟨_, _, _, _, by obtain rfl := Option.some.inj called; rfl⟩
  next => exact absurd called (by simp)

theorem inject_eq (node : Node) : node.inject configs address =
    match configs.lookup address with
    | some config => (node.injectParts configs address).attached config
    | none => node.injectParts configs address := by
  cases node with
  | branch kind parens children => rfl
  | leaf l => cases configs.lookup address <;> rfl
  | name parens id => cases configs.lookup address <;> rfl

theorem getElem?_injectFrom (index : Nat) (nodes : List Node) (i : Nat) :
    (inject.injectFrom configs address index nodes)[i]? =
      nodes[i]?.map (inject configs (address ++ [index + i])) := by
  induction nodes generalizing index i with
  | nil => simp [inject.injectFrom]
  | cons node rest ih =>
    cases i with
    | zero => simp [inject.injectFrom]
    | succ i => simp [inject.injectFrom, ih, Nat.add_assoc, Nat.add_comm 1]

theorem injectFrom_eq_self {index : Nat} {nodes : List Node} (each : ∀ (i : Nat) node,
      nodes[i]? = some node → node.inject configs (address ++ [index + i]) = node) :
    inject.injectFrom configs address index nodes = nodes := by
  refine List.ext_getElem? fun i => ?_
  rw [getElem?_injectFrom]
  cases here : nodes[i]? with
  | none => rfl
  | some node => exact congrArg some (each i node here)

theorem mem_injectFrom {index : Nat} {nodes : List Node} {image : Node} :
    image ∈ inject.injectFrom configs address index nodes ↔
      ∃ (i : Nat) (node : Node), nodes[i]? = some node ∧
        node.inject configs (address ++ [index + i]) = image := by
  simp only [List.mem_iff_getElem?, getElem?_injectFrom, Option.map_eq_some_iff]

@[simp] theorem length_injectFrom (index : Nat) (nodes : List Node) :
    (inject.injectFrom configs address index nodes).length = nodes.length := by
  induction nodes generalizing index with
  | nil => rfl
  | cons node rest ih => simp [inject.injectFrom, ih]

theorem inject_of_not_call {kind : Kind} (other : kind ≠ .call) (parens : Parens)
    (children : List Node) : (branch kind parens children).inject configs address =
      .branch kind parens (inject.injectFrom configs address 0 children) := by
  have none : Call.ofNode? (branch kind parens (inject.injectFrom configs address 0 children)) = none := by
    unfold Call.ofNode?
    split
    next same => exact absurd (by injection same) other
    next => rfl
  rw [inject_eq]
  cases configs.lookup address with
  | none => rfl
  | some config => exact attached_of_not_call none config

theorem inject_of_isA {node : Node} (other : node.isA .call = false) :
    node.inject configs address = node.injectParts configs address := by
  cases node with
  | leaf l => rfl
  | name parens id => rfl
  | branch kind parens children =>
    exact inject_of_not_call configs address (by simpa [isA] using other) parens children

theorem exists_inject_branch (kind : Kind) (parens : Parens) (children : List Node) :
    ∃ nodes, (branch kind parens children).inject configs address = .branch kind parens nodes := by
  by_cases called : kind = .call
  next =>
    subst called
    rw [inject_eq]
    cases configs.lookup address with
    | none => exact ⟨_, rfl⟩
    | some config =>
      cases read : Call.ofNode? (injectParts configs address (branch .call parens children)) with
      | none => exact ⟨_, attached_of_not_call read config⟩
      | some call =>
        obtain ⟨_, _, _, _, shape⟩ := isA_call_of_ofNode? read
        obtain rfl : parens = call.parens := by injection shape
        exact ⟨_, (attached_of_call read config).trans (Call.toNode_attach call config)⟩
  next => exact ⟨_, inject_of_not_call configs address called parens children⟩

@[simp] theorem isA_inject (node : Node) (kind : Kind) :
    (node.inject configs address).isA kind = node.isA kind := by
  cases node with
  | leaf l => rfl
  | name parens id => rfl
  | branch found parens children =>
    obtain ⟨nodes, same⟩ := exists_inject_branch configs address found parens children
    rw [same]
    rfl

@[simp] theorem parens_inject (node : Node) : (node.inject configs address).parens = node.parens := by
  cases node with
  | leaf l => rfl
  | name parens id => rfl
  | branch found parens children =>
    obtain ⟨nodes, same⟩ := exists_inject_branch configs address found parens children
    rw [same]
    rfl

@[simp] theorem isName_inject (node : Node) :
    (node.inject configs address).isName = node.isName := by
  cases node with
  | leaf l => rfl
  | name parens id => rfl
  | branch found parens children =>
    obtain ⟨nodes, same⟩ := exists_inject_branch configs address found parens children
    rw [same]
    rfl

@[simp] theorem isBareGenerator_inject (node : Node) :
    (node.inject configs address).isBareGenerator = node.isBareGenerator := by
  simp [isBareGenerator]

theorem inject_of_isCallFree {node : Node} (free : node.IsCallFree) :
    node.inject configs address = node := by
  induction node generalizing address with
  | leaf l => rfl
  | name parens id => rfl
  | branch kind parens children ih =>
    have other : kind ≠ .call := by simpa [isA] using free [] _ rfl
    rw [inject_of_not_call configs address other,
      injectFrom_eq_self configs address fun i child here => ?_]
    refine ih child (List.mem_of_getElem? here) _ fun path part found => ?_
    exact free (i :: path) part (by rw [part?_cons, children_branch, here, Option.bind_some, found])

theorem injectFrom_of_isCallFree (index : Nat) {nodes : List Node}
    (free : ∀ node ∈ nodes, node.IsCallFree) : inject.injectFrom configs address index nodes = nodes :=
  injectFrom_eq_self configs address fun _ node here =>
    inject_of_isCallFree configs _ (free node (List.mem_of_getElem? here))

theorem inject_glue {node : Node} (wellFormed : node.wellFormed = true) (glue : node.isA .glue = true) :
    node.inject configs address = node :=
  inject_of_isCallFree configs address (isCallFree_of_glue wellFormed glue)

theorem fullName_of_not_member {kind : Kind} (other : kind ≠ .member) (parens : Parens)
    (children : List Node) : (branch kind parens children).fullName = "" := by
  unfold fullName
  split
  next same => exact absurd same (by simp)
  next same => exact absurd (by injection same) other
  next => rfl

theorem looseName?_of_kind {kind : Kind} (member : kind ≠ .member) (call : kind ≠ .call)
    (subscript : kind ≠ .subscript) (parens : Parens) (children : List Node) :
    Scope.looseName? (branch kind parens children) = none := by
  unfold Scope.looseName?
  split
  next same => exact absurd same (by simp)
  next same => exact absurd (by injection same) member
  next same => exact absurd (by injection same) call
  next same => exact absurd (by injection same) subscript
  next => rfl

theorem fullName_inject (node : Node) : (node.inject configs address).fullName = node.fullName := by
  induction node generalizing address with
  | leaf l => rfl
  | name parens id => rfl
  | branch kind parens children ih =>
    by_cases member : kind = .member
    next =>
      subst member
      rw [inject_of_not_call configs address (by decide)]
      rcases children with _ | ⟨base, _ | ⟨dot, _ | ⟨last, _ | ⟨next, rest⟩⟩⟩⟩
      case cons.cons.cons.nil =>
        cases last with
        | leaf l => simp [inject.injectFrom, inject, fullName]
        | name _ id => simp [inject.injectFrom, inject, fullName, ih base (by simp)]
        | branch inner around parts =>
          obtain ⟨nodes, same⟩ := exists_inject_branch configs (address ++ [0 + 1 + 1]) inner around parts
          simp [inject.injectFrom, same, fullName]
      all_goals simp [inject.injectFrom, fullName]
    next =>
      obtain ⟨nodes, same⟩ := exists_inject_branch configs address kind parens children
      rw [same, fullName_of_not_member member, fullName_of_not_member member]

end Graft.Node

namespace Graft

open Node

variable (configs : List (Address × Node)) (address : Address)

/-- An argument whose value has its configurations. -/
def Argument.injected (argument : Argument) : Argument :=
  { argument with value := argument.value.inject configs (address ++ [2]) }

theorem Argument.exists_ofNode? {node : Node} (wellFormed : node.wellFormed = true)
    (is : node.isA .argument = true) :
    ∃ argument, ofNode? node = some argument ∧
      ofNode? (node.inject configs address) = some (argument.injected configs address) := by
  obtain ⟨parens, children, rfl⟩ := exists_branch is
  obtain ⟨fits, each⟩ := (wellFormed_branch _ _ _).1 wellFormed
  obtain ⟨star, keyword, value, comma, gap, rfl, starred, word, commas, gaps, -⟩ :=
    Shape.hasRoles_argument (Shape.hasRoles_of_fits fits)
  refine ⟨_, rfl, ?_⟩
  rw [inject_of_not_call configs address (by decide)]
  simp only [inject.injectFrom, ofNode?]
  rw [inject_glue configs _ (each star (by simp)) starred, inject_glue configs _ (each comma (by simp)) commas,
    inject_glue configs _ (each gap (by simp)) gaps, inject_of_isCallFree configs _ (word.elim isCallFree_of_isAbsent (isCallFree_of_isQuiet (each keyword (by simp)) rfl))]
  rfl

/-- A call whose parts have their configurations. -/
def Call.injected (call : Call) : Call :=
  { call with
    callee := call.callee.inject configs (address ++ [0])
    arguments := call.arguments.mapIdx fun i argument =>
      argument.injected configs (address ++ [2, i]) }

theorem Argument.map_outline_injected (place : Nat → Address) (arguments : List Argument) :
    (arguments.mapIdx fun i argument => argument.injected configs (place i)).map outline =
      arguments.map outline := by
  refine List.ext_getElem? fun i => ?_
  simp only [List.getElem?_map, List.getElem?_mapIdx, Option.map_map]
  refine congrArg (Option.map · _) (funext fun argument => ?_)
  have same : (argument.injected configs (place i)).isGenerator = argument.isGenerator :=
    isBareGenerator_inject _ _ _
  simp only [Function.comp_apply, Argument.outline]
  rw [same]
  rfl

theorem Call.map_outline_injected (call : Call) :
    (call.injected configs address).arguments.map Argument.outline =
      call.arguments.map Argument.outline :=
  Argument.map_outline_injected configs _ call.arguments

theorem Argument.filterMap_injectFrom {nodes : List Node}
    (each : ∀ node ∈ nodes, node.wellFormed = true ∧ node.isA .argument = true) (index : Nat) :
    (inject.injectFrom configs address index nodes).filterMap ofNode? =
      (nodes.filterMap ofNode?).mapIdx fun i argument =>
        argument.injected configs (address ++ [index + i]) := by
  induction nodes generalizing index with
  | nil => rfl
  | cons node rest ih =>
    obtain ⟨argument, before, after⟩ := exists_ofNode? configs (address ++ [index])
      (each node (by simp)).1 (each node (by simp)).2
    rw [inject.injectFrom, List.filterMap_cons, after, List.filterMap_cons, before,
      ih (fun other mem => each other (by simp [mem])), List.mapIdx_cons]
    simp [Nat.add_assoc, Nat.add_comm 1]

theorem Call.parts_of_wellFormed {node : Node} (wellFormed : node.wellFormed = true) {call : Call}
    (called : ofNode? node = some call) :
    ∃ opening around nodes closing, node = .branch .call call.parens
        [call.callee, opening, .branch .arguments around nodes, closing] ∧
      opening.isA .glue = true ∧ closing.isA .glue = true ∧ opening.leaves = call.opening ∧
      closing.leaves = call.closing ∧ nodes.filterMap Argument.ofNode? = call.arguments ∧
      Argument.areGrammatical call.arguments = true ∧
      ∀ child ∈ nodes, child.wellFormed = true ∧ child.isA .argument = true := by
  obtain ⟨parens, callee, openingLeaves, values, closingLeaves⟩ := call
  obtain ⟨callee, opening, arguments, closing, rfl⟩ := isA_call_of_ofNode? called
  obtain ⟨fits, each⟩ := (wellFormed_branch _ _ _).1 wellFormed
  obtain ⟨_, _, _, _, same, open_glue, listed, close_glue, -⟩ :=
    Shape.hasRoles_call (Shape.hasRoles_of_fits fits)
  simp only [List.cons.injEq, and_true] at same
  obtain ⟨rfl, rfl, rfl, rfl⟩ := same
  obtain ⟨around, nodes, rfl⟩ := exists_branch listed
  have inner := (wellFormed_branch _ _ _).1 (each (.branch .arguments around nodes) (by simp))
  have roles := Shape.hasRoles_of_fits inner.1
  simp only [Shape.hasRoles, Bool.and_eq_true, List.all_eq_true] at roles
  obtain ⟨-, rfl, rfl, rfl, rfl⟩ := Call.mk.inj (Option.some.inj called)
  exact ⟨opening, around, nodes, closing, rfl, open_glue, close_glue, rfl, rfl, rfl, roles.1.2,
    fun child mem => ⟨inner.2 child mem, roles.1.1 child mem⟩⟩

theorem Call.ofNode?_of_isA {node : Node} (other : node.isA .call = false) : ofNode? node = none := by
  unfold ofNode?
  split
  next => exact absurd other (by simp [isA])
  next => rfl

theorem Call.isA_of_ofNode? {node : Node} {call : Call} (called : ofNode? node = some call) :
    node.isA .call = true := by
  obtain ⟨_, _, _, _, shape⟩ := isA_call_of_ofNode? called
  rw [shape]
  rfl

theorem Call.exists_ofNode? {node : Node} (wellFormed : node.wellFormed = true)
    (is : node.isA .call = true) : ∃ call, ofNode? node = some call := by
  obtain ⟨parens, children, rfl⟩ := exists_branch is
  obtain ⟨_, _, _, _, rfl, -⟩ :=
    Shape.hasRoles_call (Shape.hasRoles_of_fits ((wellFormed_branch _ _ _).1 wellFormed).1)
  exact ⟨_, rfl⟩

theorem Argument.map_toNode_filterMap {nodes : List Node} (each : ∀ node ∈ nodes,
      (node.wellFormed = true ∧ node.isA .argument = true) ∧ node.isBare = true) :
    (nodes.filterMap ofNode?).map toNode = nodes := by
  induction nodes with
  | nil => rfl
  | cons node rest ih =>
    obtain ⟨⟨wellFormed, is⟩, bare⟩ := each node (by simp)
    obtain ⟨argument, read, -⟩ := exists_ofNode? [] [] wellFormed is
    rw [List.filterMap_cons, read, List.map_cons, toNode_of_ofNode? wellFormed bare read,
      ih fun other mem => each other (by simp [mem])]

/-- A call is read and written without loss, and its arguments are separated. -/
theorem Call.toNode_of_ofNode? {node : Node} (wellFormed : node.wellFormed = true) {call : Call}
    (called : ofNode? node = some call) :
    call.toNode = node ∧ Argument.areSeparated call.arguments = true := by
  obtain ⟨opening, around, nodes, closing, rfl, opens, closes, opened, closed, arguments, -, each⟩ :=
    parts_of_wellFormed wellFormed called
  obtain ⟨fits, parts⟩ := (wellFormed_branch _ _ _).1 wellFormed
  have roles := Shape.hasRoles_of_fits fits
  simp only [Shape.hasRoles, List.all_cons, List.all_nil, Bool.and_true, Bool.and_eq_true] at roles
  obtain ⟨-, bareOpening, bareArguments, bareClosing⟩ := roles
  obtain rfl : around = {} := parens_of_isBare bareArguments
  have listed := Shape.hasRoles_of_fits
    ((wellFormed_branch _ _ _).1 (parts (.branch .arguments {} nodes) (by simp))).1
  simp only [Shape.hasRoles, Bool.and_eq_true, List.all_eq_true, arguments] at listed
  obtain ⟨-, bares, separated⟩ := listed
  have same : call.arguments.map Argument.toNode = nodes :=
    arguments ▸ Argument.map_toNode_filterMap fun child mem => ⟨each child mem, bares child mem⟩
  refine ⟨?_, separated⟩
  rw [toNode, Argument.withCommas_of_areSeparated separated, same, ← opened, ← closed,
    glue_leaves (parts opening (by simp)) opens bareOpening, glue_leaves (parts closing (by simp)) closes bareClosing]
  rfl

theorem Call.ofNode?_injectParts {node : Node} (wellFormed : node.wellFormed = true) {call : Call}
    (called : ofNode? node = some call) :
    ofNode? (node.injectParts configs address) = some (call.injected configs address) := by
  obtain ⟨opening, around, nodes, closing, rfl, opens, closes, opened, closed, arguments, -, each⟩ :=
    parts_of_wellFormed wellFormed called
  have parts := ((wellFormed_branch _ _ _).1 wellFormed).2
  simp only [injectParts, inject.injectFrom]
  rw [inject_glue configs _ (parts opening (by simp)) opens,
    inject_glue configs _ (parts closing (by simp)) closes,
    inject_of_not_call configs _ (show Kind.arguments ≠ .call by decide)]
  simp only [ofNode?, children_branch, opened, closed, injected,
    Argument.filterMap_injectFrom configs _ each, arguments]
  simp

theorem Node.inject_of_none {node : Node} (free : configs.lookup address = none) :
    node.inject configs address = node.injectParts configs address := by
  rw [inject_eq, free]

theorem Node.inject_of_some {node : Node} (wellFormed : node.wellFormed = true) {call : Call}
    (called : Call.ofNode? node = some call) {config : Node} (given : configs.lookup address = some config) :
    node.inject configs address = ((call.injected configs address).attach config).toNode := by
  rw [inject_eq, given]
  exact attached_of_call (Call.ofNode?_injectParts configs address wellFormed called) config

theorem Node.inject_of_unlisted {node : Node} (free : ∀ path, configs.lookup (address ++ path) = none) :
    node.inject configs address = node := by
  induction node generalizing address with
  | leaf l => rfl
  | name parens id => rfl
  | branch kind parens children ih =>
    rw [inject_of_none configs address (by simpa using free []), injectParts,
      injectFrom_eq_self configs address fun i child here => ?_]
    refine ih child (List.mem_of_getElem? here) _ fun path => ?_
    simpa using free ((0 + i) :: path)

/-- What the injection makes of a node: its parts get their configurations, and then a call that one is
given for gets its own. -/
theorem Node.inject_cases {node : Node} (wellFormed : node.wellFormed = true) :
    (configs.lookup address = none ∨ Call.ofNode? node = none) ∧
        node.inject configs address = node.injectParts configs address ∨
      ∃ call config, Call.ofNode? node = some call ∧ configs.lookup address = some config ∧
        node.inject configs address = ((call.injected configs address).attach config).toNode := by
  cases given : configs.lookup address with
  | none => exact .inl ⟨.inl rfl, inject_of_none configs address given⟩
  | some config =>
    cases is : node.isA .call with
    | false => exact .inl ⟨.inr (Call.ofNode?_of_isA is), inject_of_isA configs address is⟩
    | true =>
      obtain ⟨call, called⟩ := Call.exists_ofNode? wellFormed is
      exact .inr ⟨call, config, called, rfl, inject_of_some configs address wellFormed called given⟩

end Graft
