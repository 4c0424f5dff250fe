import Graft.Proofs.Grafting.Quoting
import Graft.Proofs.Lossless.Bare
import Graft.Proofs.Tree.Splice

set_option autoImplicit false

/-!
Literals with replacement fields in a module that is written. Each is still there, with the configurations
of the calls in its fields. Before Python 3.12 a field must not hold the quotes around its literal.
-/
namespace Graft

open Node Source

namespace Node

/-- The literals with replacement fields in a tree, in the order of its text. -/
def formatted (node : Node) : List Node := node.nodes.filter (isA .formatted)

theorem formatted_eq (node : Node) : node.formatted =
    (if node.isA .formatted then [node] else []) ++ node.children.flatMap formatted := by
  rw [formatted, nodes_eq, List.filter_cons, List.filter_flatMap]
  split <;> rfl

@[simp] theorem formatted_leaf (l : Leaf) : (leaf l).formatted = [] := rfl

@[simp] theorem formatted_name (parens : Parens) (id : Identifier) : (name parens id).formatted = [] := rfl

theorem formatted_branch {kind : Kind} (other : kind ≠ .formatted) (parens : Parens) (children : List Node) :
    (branch kind parens children).formatted = children.flatMap formatted := by
  rw [formatted_eq, if_neg (by simp [isA, other])]
  rfl

@[simp] theorem formatted_glue (leaves : List Leaf) : (glue leaves).formatted = [] := by
  rw [glue, plain, formatted_branch (by decide), List.flatMap_map]
  simp

theorem formatted_of_glue {node : Node} (wellFormed : node.wellFormed = true) (is : node.isA .glue = true) :
    node.formatted = [] := by
  obtain ⟨parens, parts, rfl⟩ := exists_branch is
  have each := Shape.hasRoles_of_fits ((wellFormed_branch _ _ _).1 wellFormed).1
  rw [formatted_branch (by decide), List.flatMap_eq_nil_iff]
  intro part mem
  obtain ⟨l, rfl⟩ : ∃ l, part = .leaf l := by
    have leaf := List.all_eq_true.1 each part mem
    cases part with
    | leaf l => exact ⟨l, rfl⟩
    | name parens id => exact absurd leaf (by simp [isLeaf])
    | branch kind parens children => exact absurd leaf (by simp [isLeaf])
  rfl

theorem formatted_of_isDotted {node : Node} (wellFormed : node.wellFormed = true)
    (dotted : node.isDotted = true) : node.formatted = [] := by
  induction node with
  | leaf l => rfl
  | name parens id => rfl
  | branch kind parens children ih =>
    unfold isDotted at dotted
    split at dotted
    next same => exact absurd same (by simp)
    next base dot around id same =>
      injection same with member brackets parts
      subst member parts
      have each := ((wellFormed_branch _ _ _).1 wellFormed).2
      rw [Bool.and_eq_true] at dotted
      rw [formatted_branch (by decide)]
      simp [ih base (by simp) (each base (by simp)) dotted.1,
        formatted_of_glue (each dot (by simp)) dotted.2]
    next => exact absurd dotted (by simp)

/-- The literals with replacement fields in a tree, each at its address. -/
def formattedFrom (address : Address) (node : Node) : List Located :=
  (node.preorder address).filter fun located => located.2.isA .formatted

theorem map_snd_formattedFrom (address : Address) (node : Node) :
    (node.formattedFrom address).map (·.2) = node.formatted := by
  have shown : node.nodes = (node.preorder address).map (·.2) := by
    rw [nodes, walk_eq]
    exact map_snd_preorder [] address node
  rw [formatted, shown, List.filter_map]
  rfl

theorem formattedFrom_eq (address : Address) (node : Node) : node.formattedFrom address =
    (if node.isA .formatted then [(address, node)] else []) ++
      (node.childrenAt address).flatMap fun located => located.2.formattedFrom located.1 := by
  rw [formattedFrom, preorder_eq, List.filter_cons, List.filter_flatMap]
  split <;> rfl

end Node

theorem Argument.formatted_toNode (argument : Argument) : argument.toNode.formatted = argument.value.formatted := by
  have keyword : (keywordNode argument.keyword).formatted = [] := by
    cases argument.keyword with
    | none => rfl
    | some keyword =>
      rw [keywordNode, plain, formatted_branch (by decide)]
      simp
  rw [toNode, plain, formatted_branch (by decide)]
  simp [keyword]

theorem Call.formatted_toNode (call : Call) : call.toNode.formatted =
    call.callee.formatted ++ (call.arguments.map Argument.value).flatMap formatted := by
  have ignores : Argument.IgnoresComma Argument.value := fun _ _ => rfl
  rw [toNode, formatted_branch (by decide), ← ignores.map_withCommas, List.flatMap_map]
  simp only [List.flatMap_cons, formatted_glue, plain]
  rw [formatted_branch (by decide), List.flatMap_map]
  simp [Argument.formatted_toNode]

/-- What a call is given besides its own arguments holds no literal with fields. -/
theorem Call.formatted_attach (call : Call) {config : Node} (none : config.formatted = []) :
    (call.attach config).toNode.formatted = call.toNode.formatted := by
  have ignores : Argument.IgnoresComma Argument.value := fun _ _ => rfl
  obtain ⟨added, values, -, each⟩ := call.exists_added config
  have new : added.flatMap formatted = [] := by
    rw [List.flatMap_eq_nil_iff]
    intro value mem
    rcases each value mem with rfl | rfl
    · exact none
    · rfl
  rw [attach_eq, formatted_toNode, formatted_toNode]
  rw [ignores.map_withCommas] at values
  rw [values, List.flatMap_append, List.flatMap_append, new, List.nil_append, ← List.flatMap_append,
    List.take_append_drop]

theorem Work.IsConfig.formatted {config : Node} (is : Work.IsConfig config) : config.formatted = [] := by
  obtain ⟨bindings, library, rfl⟩ := is
  rfl

/-- The injection gives every literal its configurations, and makes no new one. -/
theorem Node.formatted_inject {configs : List (Address × Node)}
    (made : ∀ address config, configs.lookup address = some config → Work.IsConfig config) {node : Node}
    (wellFormed : node.wellFormed = true) (address : Address) :
    (node.inject configs address).formatted =
      (node.formattedFrom address).map fun located => located.2.inject configs located.1 := by
  induction node generalizing address with
  | leaf l => rfl
  | name parens id => rfl
  | branch kind parens children ih =>
    have each := ((wellFormed_branch _ _ _).1 wellFormed).2
    have below (index : Nat) (nodes : List Node) (among : ∀ node ∈ nodes, node ∈ children) :
        (inject.injectFrom configs address index nodes).flatMap formatted =
          ((childrenFrom address index nodes).flatMap fun located => located.2.formattedFrom located.1).map
            fun located => located.2.inject configs located.1 := by
      induction nodes generalizing index with
      | nil => rfl
      | cons child rest later =>
        have mem := among child (by simp)
        rw [inject.injectFrom, List.flatMap_cons, childrenFrom, List.flatMap_cons, List.map_append,
          ih child mem (each child mem), later (index + 1) fun node mem => among node (by simp [mem])]
    rw [formattedFrom_eq, List.map_append]
    change _ = _ ++ ((childrenFrom address 0 children).flatMap _).map _
    rw [← below 0 children fun _ => id]
    have parts : (injectParts configs address (branch kind parens children)).formatted =
        (if (branch kind parens children).isA .formatted then
          [injectParts configs address (branch kind parens children)] else []) ++
            (inject.injectFrom configs address 0 children).flatMap formatted := by
      rw [formatted_eq]
      rfl
    obtain ⟨-, same⟩ | ⟨call, config, read, given, same⟩ := inject_cases configs address wellFormed
    next =>
      rw [same, parts]
      split
      next => rw [List.map_singleton, same]
      next => rfl
    next =>
      -- A call is no literal, and what it is given holds none.
      have other : (branch kind parens children).isA .formatted = false := by
        obtain rfl : kind = .call := by simpa [isA] using Call.isA_of_ofNode? read
        rfl
      rw [other] at parts ⊢
      obtain ⟨whole, separated⟩ := Call.toNode_of_ofNode? wellFormed read
      rw [same, Call.formatted_attach _ (made address config given).formatted,
        Call.toNode_injected configs address separated, whole, parts]
      rfl

theorem formatted_of_importLine {wanted : Export} {bound : String} {line : Node}
    (made : importLine wanted bound = .ok line) : line.formatted = [] := by
  obtain ⟨source, binder, -, spells, valid, bind, -, rfl⟩ := exists_parts_of_importLine made
  have named : binder.formatted = [] := by
    unfold importBinder at bind
    split at bind
    next => exact Except.ok.inj bind ▸ rfl
    next =>
      rw [Node.ofIdentifier_eq_ok valid] at bind
      exact Except.ok.inj bind ▸ rfl
  have dotted := formatted_of_isDotted spells.part.wellFormed spells.isDotted
  have absent : Node.absent.formatted = [] := rfl
  simp (disch := decide) [importOf, plain, formatted_branch, dotted, named, absent]

namespace Node

/-- The quotes that a literal with replacement fields begins with. -/
def quotes : Node → Chars
  | .branch .formatted _ (.leaf (.text start) :: _) => start.toList.filter isQuote
  | _ => []

theorem isQuote_of_mem_quotes {node : Node} {c : Char} (mem : c ∈ node.quotes) : isQuote c = true := by
  unfold quotes at mem
  split at mem
  next => exact (List.mem_filter.1 mem).2
  next => exact absurd mem (by simp)

theorem quotes_inject {node : Node} (is : node.isA .formatted = true) (configs : List (Address × Node))
    (address : Address) : (node.inject configs address).quotes = node.quotes := by
  obtain ⟨parens, children, rfl⟩ := exists_branch is
  rw [inject_of_not_call configs address (by decide)]
  rcases children with _ | ⟨first, rest⟩
  next => rfl
  next =>
    cases first with
    | leaf l => cases l <;> rfl
    | name around id => rfl
    | branch kind around parts =>
      obtain ⟨nodes, same⟩ := exists_inject_branch configs (address ++ [0]) kind around parts
      rw [inject.injectFrom, same]
      rfl

end Node

namespace Module

/-- The literals with replacement fields of a module, in the order of its text. -/
def formatted (module : Module) : List Located :=
  module.root.walk.filter fun located => located.2.isA .formatted

/-- Whether a replacement field of a literal holds the quotes around the literal. -/
def reusesQuotes (module : Module) (node : Node) : Bool :=
  node.children.any fun part => !part.isLeaf && decide (node.quotes <:+: shown module.layout part.leaves)

theorem reusesQuotes_iff {module : Module} {node : Node} : module.reusesQuotes node = true ↔
    ∃ (i : Nat) (part : Node), node.children[i]? = some part ∧ part.isLeaf = false ∧
      node.quotes <:+: shown module.layout part.leaves := by
  simp only [reusesQuotes, List.any_eq_true, Bool.and_eq_true, Bool.not_eq_true', decide_eq_true_eq,
    List.mem_iff_getElem?]
  exact ⟨fun ⟨part, ⟨i, here⟩, held⟩ => ⟨i, part, here, held⟩, fun ⟨i, part, here, held⟩ => ⟨part, ⟨i, here⟩, held⟩⟩

theorem formatted_insertLeading (module : Module) {lines : List Node}
    (none : ∀ line ∈ lines, line.formatted = []) :
    (module.insertLeading lines).root.formatted = module.root.formatted := by
  have whole (module : Module) : module.root.formatted = module.root.children.flatMap Node.formatted :=
    formatted_branch (by decide) {} _
  rw [whole, whole, children_insertLeading, List.flatMap_append, List.flatMap_append,
    List.flatMap_eq_nil_iff.2 none, List.nil_append, ← List.flatMap_append, List.take_append_drop]

end Module

theorem Call.exists_part?_attach (call : Call) (config : Node) :
    ∃ i, (call.attach config).toNode.part? [2, i, 2] = some config := by
  have ignores : Argument.IgnoresComma Argument.value := fun _ _ => rfl
  have place := call.map_getElem?_attach config call.place
  rw [if_neg (Nat.lt_irrefl _), if_pos rfl, Option.map_eq_some_iff] at place
  obtain ⟨argument, here, same⟩ := place
  have value : argument.value = config := by
    have own := congrArg Argument.value same
    unfold added at own
    split at own <;> exact own
  have listed := congrArg (·[call.place]?) (ignores.map_withCommas (call.attach config).arguments)
  simp only [List.getElem?_map, here, Option.map_some, value] at listed
  obtain ⟨written, there, rfl⟩ := Option.map_eq_some_iff.1 listed
  refine ⟨call.place, ?_⟩
  rw [toNode_attach]
  simp [part?_cons, plain, there, Argument.toNode]

namespace Gives

variable {module : Module} {given : List (Address × Node)} {uses : List Use}
  (gives : Gives module.root given uses)
  (made : ∀ address config, given.lookup address = some config → Work.IsConfig config)
  {address : Address} {node : Node} (found : module.root.part? address = some node)

include gives made found

theorem quotation_mem {use : Use} (mem : use ∈ uses) {path : Address}
    (inside : use.address = address ++ path) (still : Still module.root given address) (layout : Layout) :
    quotation ∈ shown layout (node.inject given address).leaves := by
  obtain ⟨stands, called⟩ := gives.stands use mem
  obtain ⟨config, gift⟩ := gives.gets use mem
  have wellFormed := wellFormed_part? gives.wellFormed stands
  obtain ⟨bindings, library, rfl⟩ := made _ _ gift
  have below : node.part? path = some use.node := by
    rw [inside, part?_append, found, Option.bind_some] at stands
    exact stands
  obtain ⟨i, within⟩ := (use.call.injected given use.address).exists_part?_attach (configOf bindings library)
  rw [← inject_of_some given use.address wellFormed called gift] at within
  have is := Call.isA_of_ofNode? called
  have moves := part?_inject gives.wellFormed is path address node found still below
  have part : (node.inject given address).part? (moved module.root given address path ++ [2, i, 2]) =
      some (configOf bindings library) := by
    rw [part?_append, moves, Option.bind_some, ← inside, within]
  have leaf := (sublist_leaves part).subset (show Leaf.text "\"plugins\"" ∈ _ by simp [configOf])
  refine List.mem_flatMap.2 ⟨_, leaf, ?_⟩
  rw [render_text]
  decide

theorem reusesQuotes_inject_iff (tidy : module.root.IsTidy) (is : node.isA .formatted = true)
    (free : module.reusesQuotes node = false) : module.reusesQuotes (node.inject given address) = true ↔
      node.quotes = [quotation] ∧ ∃ use ∈ uses, address <+: use.address := by
  obtain ⟨parens, children, rfl⟩ := exists_branch is
  have below {i : Nat} {part : Node} (here : children[i]? = some part) :
      module.root.part? (address ++ [i]) = some part := by
    rw [part?_concat, found, Option.bind_some, children_branch, here]
  rw [Module.reusesQuotes_iff, quotes_inject is]
  rw [← Bool.not_eq_true, Module.reusesQuotes_iff] at free
  rw [inject_of_not_call given address (by decide), children_branch]
  constructor
  next =>
    rintro ⟨i, written, there, solid, held⟩
    rw [getElem?_injectFrom, Option.map_eq_some_iff] at there
    obtain ⟨part, here, rfl⟩ := there
    rw [Nat.zero_add] at held
    rw [isLeaf_inject] at solid
    have apart : ¬ (branch .formatted parens children).quotes <:+: shown module.layout part.leaves :=
      fun reused => free ⟨i, part, here, solid, reused⟩
    -- Were the quotes others, no configuration could hold them; were no use inside, nothing would have changed.
    refine ⟨Classical.byContradiction fun other => apart ?_, Classical.byContradiction fun none => apart ?_⟩
    next =>
      have adds := addsNoQuotes_inject (fun c => isQuote_of_mem_quotes) module.layout other made
        (wellFormed_part? gives.wellFormed (below here)) (tidy.part? (below here)) (address ++ [i]) [] []
      simpa using adds (by simpa using held)
    next =>
      rwa [inject_of_unlisted _ _ fun path => ?_] at held
      rw [Option.eq_none_iff_forall_not_mem]
      intro config gift
      obtain ⟨use, mem, place⟩ := gives.only _ config gift
      exact none ⟨use, mem, by rw [place, List.append_assoc]; exact List.prefix_append _ _⟩
  next =>
    rintro ⟨single, use, mem, path, inside⟩
    obtain ⟨stands, called⟩ := gives.stands use mem
    obtain ⟨_, _, _, _, shape⟩ := isA_call_of_ofNode? called
    rw [← inside, part?_append, found, Option.bind_some] at stands
    cases path with
    | nil => exact absurd (Option.some.inj stands) (by rw [shape]; simp)
    | cons i rest =>
      rw [part?_cons, children_branch, Option.bind_eq_some_iff] at stands
      obtain ⟨part, here, within⟩ := stands
      have solid : part.isLeaf = false := by
        cases part with
        | leaf l =>
          rw [shape] at within
          cases rest <;> simp [part?_cons, Node.children] at within
        | name parens id => rfl
        | branch kind parens children => rfl
      refine ⟨i, part.inject given (address ++ [i]), by rw [getElem?_injectFrom, here, Nat.zero_add]; rfl,
        by rw [isLeaf_inject, solid], ?_⟩
      rw [single, List.singleton_infix_iff]
      exact gives.quotation_mem made (below here) mem (show _ = _ ++ rest by rw [← inside]; simp)
        (still_of_not_call module.root given found rfl i) _

end Gives

variable {settings : Settings} {file : Option String} {tally : Tally}

theorem Grafts.formatted {module : Module} {survey : Scope.Survey} {given : List (Address × Node)}
    {added : List (Export × String)} {lines : List Node} (wellFormed : module.wellFormed = true)
    (grafts : Grafts settings file tally module survey given added lines) :
    ((module.inject given).insertLeading lines).formatted.map (·.2) =
      module.formatted.map fun located => located.2.inject given located.1 := by
  have whole (module : Module) : module.formatted = module.root.formattedFrom [] := by
    rw [Module.formatted, walk_eq]
    rfl
  have none : ∀ line ∈ lines, line.formatted = [] := by
    intro line mem
    have told : .ok line ∈ lines.map (.ok : Node → Except Identifier.Fault Node) := List.mem_map_of_mem mem
    rw [grafts.lines, List.mem_map] at told
    obtain ⟨entry, -, made⟩ := told
    exact formatted_of_importLine made
  rw [whole, whole, map_snd_formattedFrom, Module.formatted_insertLeading _ none, Module.root_inject]
  exact formatted_inject (fun address config gift => (grafts.configures.of_lookup gift).1)
    (Module.wellFormed_root wellFormed) []

/-- The literals with replacement fields are still there after a grafting, one by one. A literal whose fields
did not hold its quotes keeps that unless it stands in single quotation marks and a use in it is given a
configuration. -/
theorem graft_reusesQuotes_iff {code : String} {module : Module} {survey : Scope.Survey}
    {written : Option Module} (parsed : Module.parse? code = some module)
    (surveyed : Scope.survey module = .ok survey)
    (done : (graft settings file tally module).result = .ok written) :
    List.Forall₂ (fun before after => after.2.quotes = before.2.quotes ∧
        (module.reusesQuotes before.2 = false →
          ((written.getD module).reusesQuotes after.2 = true ↔ before.2.quotes = [quotation] ∧
            ∃ use ∈ module.graftedUses settings file survey, before.1 <+: use.address)))
      module.formatted (written.getD module).formatted := by
  have wellFormed := Module.wellFormed_of_parse? parsed
  obtain ⟨found, same, -, given, added, lines, grafts⟩ := grafts_of_ok wellFormed done
  obtain rfl := Except.ok.inj (surveyed.symm.trans same)
  have result := grafts.result
  rw [done, Except.ok.injEq] at result
  have made (address : Address) (config : Node) (gift : given.lookup address = some config) :
      Work.IsConfig config := (grafts.configures.of_lookup gift).1
  obtain ⟨layout, each⟩ : (written.getD module).layout = module.layout ∧
      (written.getD module).formatted.map (·.2) =
        module.formatted.map fun located => located.2.inject given located.1 := by
    split at result
    next none =>
      obtain rfl := List.isEmpty_iff.1 none
      obtain rfl := result
      exact ⟨rfl, List.map_congr_left fun located _ => (inject_of_unlisted _ _ fun _ => rfl).symm⟩
    next =>
      obtain rfl := result
      exact ⟨rfl, grafts.formatted wellFormed⟩
  have same : (written.getD module).reusesQuotes = module.reusesQuotes := by
    funext node
    rw [Module.reusesQuotes, Module.reusesQuotes, layout]
  rw [same]
  suffices every : List.Forall₂ (fun before after => after.quotes = before.2.quotes ∧
      (module.reusesQuotes before.2 = false → (module.reusesQuotes after = true ↔
        before.2.quotes = [quotation] ∧
          ∃ use ∈ module.graftedUses settings file survey, before.1 <+: use.address)))
      module.formatted ((written.getD module).formatted.map (·.2)) from
    List.forall₂_map_right_iff.1 every
  rw [each, List.forall₂_map_right_iff, List.forall₂_same]
  rintro ⟨address, node⟩ mem
  obtain ⟨walked, is⟩ := List.mem_filter.1 mem
  exact ⟨quotes_inject is given address, fun free => (grafts.gives wellFormed).reusesQuotes_inject_iff made
    (mem_walk.1 walked) (Module.isTidy_of_parse? parsed) is free⟩

/-- A configuration goes well between apostrophes, but not in a literal around those that stands in quotation
marks. -/
theorem graft_reusesQuotes_nested : ∃ module survey written,
    Module.parse? "from formkit.vue import FormKit\nx = f'\x7bFormKit(el,)\x7d', f\"\x7bf'\x7bFormKit(a)\x7d'\x7d\", f\"\"\"\x7by\x7d\"\"\"\n" =
        some module ∧
      Scope.survey module = .ok survey ∧
        (graft .standard none {} module).result = .ok (some written) ∧
          (module.formatted.map fun located => module.reusesQuotes located.2) = [false, false, false, false] ∧
            (written.formatted.map fun located => written.reusesQuotes located.2) = [false, true, false, false] := by
  have check : ((Module.parse? "from formkit.vue import FormKit\nx = f'\x7bFormKit(el,)\x7d', f\"\x7bf'\x7bFormKit(a)\x7d'\x7d\", f\"\"\"\x7by\x7d\"\"\"\n").bind
      fun module => (Scope.survey module).toOption.bind fun survey =>
        (graft .standard none {} module).result.toOption.join.map fun _ =>
          ((module.formatted.map fun located => module.reusesQuotes located.2),
            module.formatted.map fun located => decide (located.2.quotes = [quotation]) &&
              (module.graftedUses .standard none survey).any fun use => located.1.isPrefixOf use.address)) =
        some ([false, false, false, false], [false, true, false, false]) := by
    decide +kernel
  obtain ⟨module, parsed, check⟩ := Option.bind_eq_some_iff.1 check
  obtain ⟨survey, surveyed, check⟩ := Option.bind_eq_some_iff.1 check
  obtain ⟨written, done, check⟩ := Option.map_eq_some_iff.1 check
  obtain ⟨free, held⟩ := Prod.mk.inj check
  have result := eq_ok_of_toOption (Option.join_eq_some_iff.1 done)
  have pairs := graft_reusesQuotes_iff parsed (eq_ok_of_toOption surveyed) result
  have clean : ∀ located ∈ module.formatted, module.reusesQuotes located.2 = false := by
    intro located mem
    have among := @List.mem_map_of_mem _ _ _ _ (fun located => module.reusesQuotes located.2) mem
    rw [free] at among
    simpa using among
  refine ⟨module, survey, written, parsed, eq_ok_of_toOption surveyed, result, free, ?_⟩
  rw [← held, eq_comm, ← List.forall₂_eq_eq_eq, List.forall₂_map_left_iff, List.forall₂_map_right_iff]
  refine ((List.forall₂_and_left _ _).2 ⟨clean, pairs⟩).imp fun before after both => ?_
  obtain ⟨free, -, exact⟩ := both
  rw [Option.getD_some] at exact
  rw [Bool.eq_iff_iff, exact free]
  simp

/-- A field in quotation marks holds one as soon as a use in it is configured. -/
theorem graft_reuses_quotes : ∃ module written,
    Module.parse? "from formkit.vue import FormKit\nx = f\"\x7bFormKit(el)\x7d\"\n" = some module ∧
      (graft .standard none {} module).result = .ok (some written) ∧
        (module.formatted.map fun located => module.reusesQuotes located.2) = [false] ∧
          (written.formatted.map fun located => written.reusesQuotes located.2) = [true] := by
  have check : ((Module.parse? "from formkit.vue import FormKit\nx = f\"\x7bFormKit(el)\x7d\"\n").bind
      fun module => (graft .standard none {} module).result.toOption.join.map fun written =>
        ((module.formatted.map fun located => module.reusesQuotes located.2),
          written.formatted.map fun located => written.reusesQuotes located.2)) = some ([false], [true]) := by
    decide +kernel
  obtain ⟨module, parsed, check⟩ := Option.bind_eq_some_iff.1 check
  obtain ⟨written, done, check⟩ := Option.map_eq_some_iff.1 check
  obtain ⟨before, after⟩ := Prod.mk.inj check
  exact ⟨module, written, parsed, eq_ok_of_toOption (Option.join_eq_some_iff.1 done), before, after⟩

end Graft
