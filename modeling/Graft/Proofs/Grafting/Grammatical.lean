import Graft.Proofs.Grafting.Written
import Graft.Proofs.Optimize

set_option autoImplicit false

/-!
Whether the output of a grafting is grammatical. A configuration fits into every list of arguments
but one that is a generator without its own parentheses.
-/
namespace Graft

open Node

/-- A configuration that a call can take. -/
structure Suits (call : Call) (config : Node) : Prop where
  kept : call.isConfigured = false
  plain : call.hasUnpacking = false
  part : config.Part
  closed : ∀ argument ∈ call.arguments, argument.isGenerator = false

namespace Call

theorem keywordNode_part (keyword : Option (Identifier × List Leaf)) :
    (Argument.keywordNode keyword).Part ∧ ((Argument.keywordNode keyword).isAbsent = true ∨
      (Argument.keywordNode keyword).isA .keyword = true) := by
  cases keyword with
  | none => exact ⟨.absent, .inl rfl⟩
  | some keyword =>
    refine ⟨⟨(wellFormed_branch _ _ _).2 ⟨rfl, ?_⟩, rfl, rfl, isTidy_branch (by decide) {} ?_⟩, .inr rfl⟩
    next => simp [Node.Part.wellFormed]
    next => simp [Node.Part.isTidy]

theorem wellFormed_toNode_argument {argument : Argument} (wellFormed : argument.value.wellFormed = true)
    (apart : argument.value.isStatement = false) : argument.toNode.wellFormed = true := by
  obtain ⟨keyword, word⟩ := keywordNode_part argument.keyword
  refine (wellFormed_branch _ _ _).2 ⟨?_, ?_⟩
  next =>
    have glue (leaves : List Leaf) : (Node.glue leaves).isA .glue = true := rfl
    have bare (leaves : List Leaf) : (Node.glue leaves).isBare = true := rfl
    have bareWord : (Argument.keywordNode argument.keyword).isBare = true := by
      cases argument.keyword <;> rfl
    have others : [Node.glue argument.star, Argument.keywordNode argument.keyword, argument.value,
        .glue argument.comma, .glue argument.gap].all (!·.isStatement) = true := by
      simp [keyword.isStatement, apart, Node.Part.isStatement]
    rw [Shape.fits, others]
    simpa [Shape.hasRoles, glue, bare, bareWord] using word
  next => simp [keyword.wellFormed, wellFormed, Node.Part.wellFormed]

theorem wellFormed_toNode {call : Call} (callee : call.callee.wellFormed = true)
    (apart : call.callee.isStatement = false)
    (values : ∀ argument ∈ Argument.withCommas call.arguments,
      argument.value.wellFormed = true ∧ argument.value.isStatement = false)
    (grammatical : Argument.areGrammatical (Argument.withCommas call.arguments) = true) :
    call.toNode.wellFormed = true := by
  have each : ∀ node ∈ (Argument.withCommas call.arguments).map Argument.toNode,
      node.wellFormed = true := by
    simp only [List.mem_map, forall_exists_index, and_imp, forall_apply_eq_imp_iff₂]
    exact fun argument mem => wellFormed_toNode_argument (values argument mem).1 (values argument mem).2
  have shows {shows : Node → Bool} (all : ∀ argument : Argument, shows argument.toNode = true) :
      ((Argument.withCommas call.arguments).map Argument.toNode).all shows = true := by
    simp only [List.all_map, List.all_eq_true]
    exact fun argument _ => all argument
  have arguments : (Node.plain .arguments
      ((Argument.withCommas call.arguments).map Argument.toNode)).wellFormed = true := by
    refine (wellFormed_branch _ _ _).2 ⟨?_, each⟩
    rw [Shape.fits, Shape.hasRoles, shows fun _ => rfl, Argument.filterMap_ofNode?_toNode, grammatical,
      shows fun _ => rfl, Argument.areSeparated_withCommas, shows fun _ => rfl]
    rfl
  have list : (Node.plain .arguments
      ((Argument.withCommas call.arguments).map Argument.toNode)).isStatement = false := rfl
  refine (wellFormed_branch _ _ _).2 ⟨?_, ?_⟩
  next =>
    have others : [call.callee, .glue call.opening, .plain .arguments
        ((Argument.withCommas call.arguments).map Argument.toNode), .glue call.closing].all
          (!·.isStatement) = true := by
      simp [apart, list, Node.Part.isStatement]
    rw [Shape.fits, others]
    rfl
  next => simp [callee, arguments, Node.Part.wellFormed]

theorem wellFormed_attach {call : Call} {config : Node} (suits : Suits call config)
    (callee : call.callee.wellFormed = true) (apart : call.callee.isStatement = false)
    (values : ∀ argument ∈ call.arguments,
      argument.value.wellFormed = true ∧ argument.value.isStatement = false)
    (ordered : Argument.areOrdered call.arguments = true) :
    (call.attach config).toNode.wellFormed = true := by
  have written := ofNode?_toNode (call.attach config)
  refine wellFormed_toNode (by rwa [attach_eq]) (by rwa [attach_eq])
    (@forall_value_attach (fun value => value.wellFormed = true ∧ value.isStatement = false) _ _
      values ⟨rfl, rfl⟩ ⟨suits.part.wellFormed, suits.part.isStatement⟩) ?_
  exact (attach_areGrammatical_iff ordered suits.kept suits.plain suits.part.isBareGenerator
    written).2 suits.closed

end Call

section

variable (configs : List (Address × Node)) (address : Address)

@[simp] theorem Node.isLeaf_inject (node : Node) :
    (node.inject configs address).isLeaf = node.isLeaf := by
  cases node with
  | leaf l => rfl
  | name parens id => rfl
  | branch kind parens children =>
    obtain ⟨nodes, same⟩ := exists_inject_branch configs address kind parens children
    rw [same]
    rfl

@[simp] theorem Node.isBare_inject (node : Node) :
    (node.inject configs address).isBare = node.isBare := by
  rw [isBare, isBare, parens_inject]

@[simp] theorem Node.isStatement_inject (node : Node) :
    (node.inject configs address).isStatement = node.isStatement := by
  cases node with
  | leaf l => rfl
  | name parens id => rfl
  | branch kind parens children =>
    obtain ⟨nodes, same⟩ := exists_inject_branch configs address kind parens children
    rw [same]
    rfl

theorem Node.all_injectFrom {shows : Node → Bool}
    (kept : ∀ place node, shows (node.inject configs place) = shows node) (index : Nat)
    (nodes : List Node) : (inject.injectFrom configs address index nodes).all shows = nodes.all shows := by
  induction nodes generalizing index with
  | nil => rfl
  | cons node rest ih => rw [inject.injectFrom, List.all_cons, List.all_cons, ih, kept]

theorem Argument.areGrammatical_injected (place : Nat → Address) (arguments : List Argument) :
    areGrammatical (arguments.mapIdx fun i argument => argument.injected configs (place i)) =
      areGrammatical arguments := by
  have outlines := map_outline_injected configs place arguments
  match arguments with
  | [] => rfl
  | [only] =>
    have generator : (only.injected configs (place 0)).isGenerator = only.isGenerator :=
      isBareGenerator_inject _ _ _
    simp only [List.mapIdx_cons, List.mapIdx_nil, areGrammatical, areOrdered, generator]
    rfl
  | first :: second :: rest =>
    rw [Bool.eq_iff_iff, areGrammatical_iff (by simp), areGrammatical_iff (by simp),
      Call.forall_isGenerator_congr outlines, ← areOrdered_map_outline, outlines,
      areOrdered_map_outline]

theorem Argument.areSeparated_injected (place : Nat → Address) (arguments : List Argument) :
    areSeparated (arguments.mapIdx fun i argument => argument.injected configs (place i)) =
      areSeparated arguments := by
  have commas : (arguments.mapIdx fun i argument => argument.injected configs (place i)).map comma =
      arguments.map comma := by
    refine List.ext_getElem? fun i => ?_
    simp only [List.getElem?_map, List.getElem?_mapIdx, Option.map_map]
    rfl
  have read (arguments : List Argument) :
      areSeparated arguments = (arguments.map comma).dropLast.all (!·.isEmpty) := by
    rw [areSeparated, ← List.map_dropLast, List.all_map]
    rfl
  rw [read, read, commas]

theorem Shape.hasRoles_injectFrom {kind : Kind} {parts : List Node}
    (each : ∀ part ∈ parts, part.wellFormed = true) (roles : hasRoles kind parts = true) :
    hasRoles kind (inject.injectFrom configs address 0 parts) = true := by
  -- Quiet kinds hold no call, so only calls, arguments and argument lists can change.
  by_cases quiet : kind.isQuiet = true
  next =>
    rwa [injectFrom_of_isCallFree configs address _ (isCallFree_of_hasRoles quiet each
      (fun part mem _ => isCallFree_of_isQuiet (each part mem)) roles)]
  cases kind
  case call =>
    obtain ⟨callee, opening, arguments, closing, rfl, roles⟩ := hasRoles_call roles
    simpa [inject.injectFrom, hasRoles, and_assoc] using roles
  case arguments =>
    simp only [hasRoles, Bool.and_eq_true] at roles ⊢
    obtain ⟨⟨kinds, grammatical⟩, bare, separated⟩ := roles
    have arguments : ∀ part ∈ parts, part.wellFormed = true ∧ part.isA .argument = true :=
      fun part mem => ⟨each part mem, List.all_eq_true.1 kinds part mem⟩
    rw [all_injectFrom configs address (isA_inject configs · · .argument), kinds,
      all_injectFrom configs address (isBare_inject configs), bare,
      Argument.filterMap_injectFrom configs address arguments, Argument.areGrammatical_injected,
      Argument.areSeparated_injected, grammatical, separated]
    exact ⟨⟨rfl, rfl⟩, rfl, rfl⟩
  case argument =>
    obtain ⟨star, keyword, value, comma, gap, rfl, starred, word, commas, gaps, bare⟩ :=
      hasRoles_argument roles
    have same := inject_of_isCallFree configs (address ++ [0 + 1])
      (word.elim isCallFree_of_isAbsent (isCallFree_of_isQuiet (each keyword (by simp)) rfl))
    simpa [inject.injectFrom, hasRoles, same, starred, word, commas, gaps] using bare
  all_goals first | exact absurd rfl quiet | exact roles

theorem Suits.injected {call : Call} {config : Node} (suits : Suits call config) :
    Suits (call.injected configs address) config where
  kept := (Call.isConfigured_congr (call.map_outline_injected configs address)).trans suits.kept
  plain := (Call.hasUnpacking_congr (call.map_outline_injected configs address)).trans suits.plain
  part := suits.part
  closed := (Call.forall_isGenerator_congr (call.map_outline_injected configs address)).2 suits.closed

variable {configs address}

theorem Call.values_of_wellFormed {node : Node} (wellFormed : node.wellFormed = true) {call : Call}
    (read : ofNode? node = some call) :
    (call.callee.wellFormed = true ∧ call.callee.isStatement = false) ∧
      ∀ argument ∈ call.arguments,
        argument.value.wellFormed = true ∧ argument.value.isStatement = false := by
  obtain ⟨opening, around, nodes, closing, rfl, -, -, -, -, arguments, -, each⟩ :=
    parts_of_wellFormed wellFormed read
  obtain ⟨fits, parts⟩ := (wellFormed_branch _ _ _).1 wellFormed
  have apart {kind : Kind} {parts : List Node} (calm : kind.isStatement = false)
      (fits : Shape.fits kind parts = true) : ∀ part ∈ parts, part.isStatement = false := by
    rw [Shape.fits, calm, Bool.false_or, Bool.and_eq_true] at fits
    simpa using fits.1
  refine ⟨⟨parts _ (by simp), apart rfl fits _ (by simp)⟩, fun argument mem => ?_⟩
  rw [← arguments, List.mem_filterMap] at mem
  obtain ⟨written, mem, read⟩ := mem
  have inner := (each written mem).1
  have value := List.mem_of_getElem? (Argument.getElem?_value read)
  obtain ⟨parens, children, rfl⟩ := exists_branch (each written mem).2
  obtain ⟨fits, parts⟩ := (wellFormed_branch _ _ _).1 inner
  exact ⟨parts _ value, apart rfl fits _ value⟩

/-- Each configuration is one that the call at its address can take. -/
def Suited (configs : List (Address × Node)) (address : Address) (node : Node) : Prop :=
  ∀ path part call config, node.part? path = some part → Call.ofNode? part = some call →
    configs.lookup (address ++ path) = some config → Suits call config

theorem Suited.child {kind : Kind} {parens : Parens} {children : List Node}
    (suited : Suited configs address (.branch kind parens children)) {i : Nat} {child : Node}
    (here : children[i]? = some child) : Suited configs (address ++ [i]) child := by
  intro path part call config found read given
  refine suited (i :: path) part call config ?_ read (by simpa using given)
  rw [part?_cons, children_branch, here, Option.bind_some, found]

theorem Node.wellFormed_inject {node : Node} (wellFormed : node.wellFormed = true)
    (suited : Suited configs address node) : (node.inject configs address).wellFormed = true := by
  induction node generalizing address with
  | leaf l => rw [inject_of_isA configs address rfl]; rfl
  | name parens id => rw [inject_of_isA configs address rfl]; rfl
  | branch kind parens children ih =>
    have whole := wellFormed
    obtain ⟨fits, each⟩ := (wellFormed_branch _ _ _).1 wellFormed
    have parts : (injectParts configs address (.branch kind parens children)).wellFormed = true := by
      refine (wellFormed_branch _ _ _).2 ⟨?_, fun part mem => ?_⟩
      next =>
        rw [Shape.fits, all_injectFrom configs address
          (fun place node => congrArg (!·) (isStatement_inject configs place node))]
        rw [Shape.fits, Bool.and_eq_true] at fits
        rw [fits.1, Shape.hasRoles_injectFrom configs address each fits.2]
        rfl
      next =>
        obtain ⟨i, child, here, rfl⟩ := (mem_injectFrom configs address).1 mem
        have mem := List.mem_of_getElem? here
        exact ih child mem (each child mem) (by simpa using suited.child here)
    obtain ⟨-, same⟩ | ⟨call, config, read, given, same⟩ := inject_cases configs address whole
    next => rwa [same]
    next =>
      have suits :=
        Suits.injected configs address (suited [] _ call config rfl read (by simpa using given))
      have read' := Call.ofNode?_injectParts configs address whole read
      -- The call is attached to as its parts are by now, so it is read off the injected parts.
      obtain ⟨callee, values⟩ := Call.values_of_wellFormed parts read'
      rw [same]
      refine Call.wellFormed_attach suits callee.1 callee.2 values ?_
      obtain ⟨-, -, -, -, -, -, -, -, -, -, grammatical, -⟩ := Call.parts_of_wellFormed parts read'
      exact Argument.areOrdered_of_areGrammatical grammatical

end

/-- Every call of a tree has arguments that the grammar allows. -/
def Node.CallsAreGrammatical (root : Node) : Prop :=
  ∀ node ∈ root.nodes, ∀ call, Call.ofNode? node = some call →
    Argument.areGrammatical call.arguments = true

/-- A use that lends its parentheses to a generator. -/
def Use.lendsParens (use : Use) : Bool := use.call.arguments.any Argument.isGenerator

theorem Node.callsAreGrammatical_of_wellFormed {root : Node} (wellFormed : root.wellFormed = true) :
    root.CallsAreGrammatical := by
  intro node mem call read
  obtain ⟨address, found⟩ := mem_nodes.1 mem
  obtain ⟨-, -, -, -, -, -, -, -, -, -, grammatical, -⟩ :=
    Call.parts_of_wellFormed (wellFormed_part? wellFormed found) read
  exact grammatical

namespace Module

variable {settings : Settings} {file : Option String} {tally : Tally} {module : Module}
  {survey : Scope.Survey}

theorem lendsParens_eq_false {use : Use} : use.lendsParens = false ↔
    ∀ argument ∈ use.call.arguments, argument.isGenerator = false := by
  simp [Use.lendsParens]

theorem suited {known : List (Export × String)} {given : List (Address × Node)}
    (configures : Work.Configures settings known (module.uses settings file survey) given)
    (closed : ∀ use ∈ module.uses settings file survey, use.isSkipped = false →
      use.lendsParens = false) : Suited given [] module.root := by
  intro path part call config found read given
  obtain ⟨is, use, mem, kept, rfl⟩ := configures.of_lookup given
  obtain ⟨here, called, -⟩ := mem_uses mem
  obtain rfl := Option.some.inj (found.symm.trans here)
  obtain rfl := Option.some.inj (read.symm.trans called)
  have bare := kept
  simp only [Use.isSkipped, Bool.or_eq_false_iff] at bare
  exact ⟨bare.1, bare.2, is.part, lendsParens_eq_false.1 (closed use mem kept)⟩

theorem wellFormed_written (wellFormed : module.wellFormed = true)
    {given : List (Address × Node)} {added : List (Export × String)} {lines : List Node}
    (grafts : Grafts settings file tally module survey given added lines)
    (closed : ∀ use ∈ module.uses settings file survey, use.isSkipped = false →
      use.lendsParens = false) :
    ((module.inject given).insertLeading lines).wellFormed = true := by
  have root := wellFormed_inject (wellFormed_root wellFormed) (suited grafts.configures closed)
  rw [← root_inject] at root
  have body : ∀ node ∈ (module.inject given).body, node.wellFormed = true :=
    fun node mem => ((wellFormed_branch _ _ _).1 root).2 node (by simp [mem])
  rw [wellFormed_iff]
  simp only [insertLeading, List.mem_append]
  rintro node ((mem | mem) | mem)
  next => exact body node (List.mem_of_mem_take mem)
  next => exact (grafts.exists_importsAs mem).elim fun _ line => line.2.wellFormed
  next => exact body node (List.mem_of_mem_drop mem)

/-- A call that lends its parentheses to a generator has no place for a configuration. -/
theorem lendsParens_of_written (wellFormed : module.wellFormed = true)
    {given : List (Address × Node)} {added : List (Export × String)} {lines : List Node}
    (grafts : Grafts settings file tally module survey given added lines)
    (grammatical : ((module.inject given).insertLeading lines).root.CallsAreGrammatical)
    {use : Use} (mem : use ∈ module.uses settings file survey) (kept : use.isSkipped = false) :
    use.lendsParens = false := by
  obtain ⟨found, called, -⟩ := mem_uses mem
  obtain ⟨config, gift⟩ := grafts.configures.lookup_of_mem mem kept
  have part := (grafts.configures.of_lookup gift).1.part
  have inner := wellFormed_part? (wellFormed_root wellFormed) found
  obtain ⟨callee, opening, arguments, closing, shape⟩ := isA_call_of_ofNode? called
  have stands := part?_placed wellFormed given lines found (shape ▸ rfl)
  rw [inject_of_some given _ inner called gift] at stands
  have outlines := use.call.map_outline_injected given use.address
  have written := Call.ofNode?_toNode ((use.call.injected given use.address).attach config)
  have ordered : Argument.areOrdered (use.call.injected given use.address).arguments = true := by
    obtain ⟨-, -, -, -, -, -, -, -, -, -, orderly, -⟩ := Call.parts_of_wellFormed inner called
    rw [← Argument.areOrdered_map_outline, outlines, Argument.areOrdered_map_outline]
    exact Argument.areOrdered_of_areGrammatical orderly
  simp only [Use.isSkipped, Bool.or_eq_false_iff] at kept
  rw [lendsParens_eq_false, ← Call.forall_isGenerator_congr outlines,
    ← Call.attach_areGrammatical_iff ordered ((Call.isConfigured_congr outlines).trans kept.1)
      ((Call.hasUnpacking_congr outlines).trans kept.2) part.isBareGenerator written]
  exact grammatical _ (mem_nodes.2 ⟨_, stands⟩) _ written

theorem graft_callsAreGrammatical_iff (wellFormed : module.wellFormed = true)
    (surveyed : Scope.survey module = .ok survey) {written : Option Module}
    (done : (graft settings file tally module).result = .ok written) :
    (written.getD module).root.CallsAreGrammatical ↔
      ∀ use ∈ module.uses settings file survey, use.isSkipped = false → use.lendsParens = false := by
  obtain ⟨found, same, -, given, added, lines, grafts⟩ := grafts_of_ok wellFormed done
  obtain rfl := Except.ok.inj (surveyed.symm.trans same)
  rw [grafts.result] at done
  obtain rfl := Except.ok.inj done
  by_cases none : given.isEmpty = true
  next =>
    rw [if_pos none]
    refine iff_of_true (callsAreGrammatical_of_wellFormed (wellFormed_root wellFormed)) ?_
    intro use mem kept
    obtain ⟨config, gift⟩ := grafts.configures.lookup_of_mem mem kept
    simp [List.isEmpty_iff.1 none] at gift
  next =>
    rw [if_neg none]
    exact ⟨fun grammatical _ => lendsParens_of_written wellFormed grafts grammatical,
      fun closed => callsAreGrammatical_of_wellFormed
        (wellFormed_root (wellFormed_written wellFormed grafts closed))⟩

end Module

variable {settings : Settings} {file : Option String} {code : String}

end Graft
