import Graft.Proofs.Grafting.Again
import Graft.Proofs.Grafting.Leading

set_option autoImplicit false

/-!
A module that a grafting has written is left as it is by another: all its uses have their configurations,
or hide their arguments, and there were no more of them before.
-/
namespace Graft

open Node

theorem Module.length_leading (module : Module) :
    (module.root.children.take (module.leadingEnd + 1)).length = module.leadingEnd + 1 := by
  have bound := module.leadingEnd_le
  simp only [root, plain, children_branch, List.length_take, List.length_append, List.length_cons,
    List.length_nil]
  omega

theorem Module.children_written (module : Module) (configs : List (Address × Node)) (lines : List Node) :
    ((module.inject configs).insertLeading lines).root.children =
      inject.injectFrom configs [] 0 (module.root.children.take (module.leadingEnd + 1)) ++
        (lines ++ inject.injectFrom configs [] (module.leadingEnd + 1)
          (module.root.children.drop (module.leadingEnd + 1))) := by
  have injected : (module.inject configs).root.children = inject.injectFrom configs [] 0 module.root.children := by
    rw [root_inject, inject_of_isA configs [] rfl]
    rfl
  rw [children_insertLeading, leadingEnd_inject, injected, take_injectFrom, drop_injectFrom, Nat.zero_add]

theorem Module.placed_leading {module : Module} (configs : List (Address × Node)) (count : Nat) {i : Nat}
    (inside : i < module.leadingEnd + 1) : module.placed configs count [i] = [i] := by
  rw [placed_single, leadingEnd_inject, if_pos (Nat.le_of_lt_succ inside)]

theorem Module.placed_behind (module : Module) (configs : List (Address × Node)) (count i : Nat) :
    module.placed configs count [module.leadingEnd + 1 + i] = [module.leadingEnd + 1 + count + i] := by
  rw [placed_single, leadingEnd_inject, if_neg (by omega), Nat.add_right_comm]

theorem Node.part?_of_child {node child : Node} {i : Nat} (here : node.children[i]? = some child) :
    node.part? [i] = some child := by
  rw [part?_cons, here]
  rfl

namespace Scope

/-- The context in which the statements of a module are surveyed. -/
def Context.top : Context := ⟨0, some [], false, false, false, false, .none⟩

/-- The survey of a module with silent hints stops behind its leading section. All is settled there. -/
theorem exists_settled {module : Module} (wellFormed : module.wellFormed = true)
    (silent : module.hintsAreSilent = true) : ∃ middle survey,
      loadAll (stepOf.partsOf onlySilent 0 (module.root.children.take (module.leadingEnd + 1))) .top
        .initial = .ok middle ∧ middle.IsSettled ∧
      loadAll (stepOf.partsOf onlySilent (module.leadingEnd + 1)
        (module.root.children.drop (module.leadingEnd + 1))) .top middle = .ok survey ∧
      Scope.survey module = .ok survey := by
  obtain ⟨survey, surveyed⟩ : ∃ survey, stepOf onlySilent module.root .top .initial = .ok survey := by
    unfold Module.hintsAreSilent at silent
    cases done : stepOf onlySilent module.root .top .initial with
    | ok survey => exact ⟨survey, rfl⟩
    | error fault => exact absurd silent (by rw [← Context.top, done]; simp [Except.toBool])
  have whole := survey_of_silent surveyed
  rw [stepOf_module, ← List.take_append_drop (module.leadingEnd + 1) module.root.children, partsOf_append,
    loadAll_append, module.length_leading, Nat.zero_add] at surveyed
  obtain ⟨middle, early, late⟩ := bind_eq_ok.1 surveyed
  refine ⟨middle, survey, early, @isSettled_of_statements module.root _ (fun node mem => ?_)
    (fun i node here => ?_) _ early, late, whole⟩
  next =>
    exact ((wellFormed_branch _ _ _).1 (Module.wellFormed_root wellFormed)).2 node (List.mem_of_mem_take mem)
  next =>
    rw [List.getElem?_take, Option.ite_none_right_eq_some] at here
    exact Node.part?_of_child here.2

/-- Where the inserted imports stand: each in a statement of its own behind the leading section. -/
def Inserted (module : Module) (count : Nat) (origin : Option Address) : Prop :=
  ∃ k < count, origin = some [module.leadingEnd + 1 + k, 1]

/-- The survey of a module after a grafting: the new imports are all that has come in. -/
theorem survey_grown {module : Module} (wellFormed : module.wellFormed = true)
    (silent : module.hintsAreSilent = true) {names : List String} (strange : Strange module.root names)
    {configs : List (Address × Node)}
    (made : ∀ {address config}, configs.lookup address = some config → Work.IsConfig config)
    {lines : List Node} (spelled : ∀ line ∈ lines, ∃ wanted bound, ImportsAs line wanted bound ∧
      bound ∈ names ∧ isIdentifier bound = true) :
    ∃ before after clock, Scope.survey module = .ok before ∧
      Scope.survey ((module.inject configs).insertLeading lines) = .ok after ∧
      Grown module.root names (module.placed configs lines.length) clock lines.length before after ∧
        Traces names (module.placed configs lines.length) (Inserted module lines.length) before after := by
  let place := module.placed configs lines.length
  let written := (module.inject configs).insertLeading lines
  let depth := (renderLeaves written.layout written.leaves).length
  let cut := module.leadingEnd + 1
  have follows : Follows module.root configs place (readText depth) := by
    refine ⟨Module.wellFormed_root wellFormed, fun given => ?_,
      fun i inside => Module.placed_concat module configs lines.length inside i⟩
    obtain ⟨bindings, library, rfl⟩ := made given
    exact isQuiet_configOf (readText_idle 1 depth isSilentText_plugins) bindings library
  have speak (address : Address) (node : Node) (found : module.root.part? address = some node) :
      Speaks (fun name _ => name ∉ names) node := strange.speaks (mem_nodes.2 ⟨address, found⟩)
  -- The body is surveyed in three stretches: the leading section, the new imports, and the rest. The first
  -- and the last mirror stretches of the old module.
  have image (clock count : Nat) {index next : Nat} {nodes : List Node}
      (stands : ∀ (i : Nat) node, nodes[i]? = some node → module.root.part? [index + i] = some node)
      (places : ∀ i, i < nodes.length → place [index + i] = [next + i]) :=
    loadAll_inject (Traces.mirror module.root names place (Inserted module lines.length) clock count)
      follows (onlySilent_mirrored place _ depth) speak
      strange.empty.not_mem rfl stands places
  obtain ⟨middle, before, early, settled, late, surveyed⟩ := exists_settled wellFormed silent
  obtain ⟨reached, ran, grown, traces⟩ := image 0 0
    (fun i node here => by
      rw [List.getElem?_take, Option.ite_none_right_eq_some] at here
      rw [Nat.zero_add]
      exact Node.part?_of_child here.2)
    (fun i inside => by
      rw [module.length_leading] at inside
      rw [Nat.zero_add]
      exact Module.placed_leading configs lines.length inside)
    .top .initial .initial middle rfl
    ⟨Grown.initial module.root names place, Traces.initial names place _⟩ early
  have grounded : reached.IsGrounded := by
    have before := Survey.isGrounded_iff.1 settled.grounded
    rw [Survey.isGrounded_iff, grown.length, grown.redirects]
    exact before
  obtain ⟨third, imported, imports, traced⟩ :=
    @loadAll_imports (readText depth) names lines spelled cut .top rfl _ grounded
  have behind : Traces names place (Inserted module lines.length) middle third :=
    traced (fun k among => ⟨k, among, rfl⟩) traces
  obtain ⟨after, ended, final⟩ := image (middle.frame 0).clock lines.length
    (fun i node here => Node.part?_of_child (by rwa [List.getElem?_drop] at here))
    (fun i _ => Module.placed_behind module configs lines.length i)
    .top middle third before rfl ⟨grown.imported settled imports, behind⟩ late
  refine ⟨before, after, _, surveyed, ?_, final⟩
  change stepOf (readText depth) written.root .top .initial = _
  rw [stepOf_module, Module.children_written, partsOf_append, partsOf_append, length_injectFrom,
    module.length_leading, Nat.zero_add, loadAll_append, loadAll_append]
  exact bind_eq_ok.2 ⟨reached, ran, bind_eq_ok.2 ⟨third, imported, ended⟩⟩

end Scope

theorem Call.callee_inject {node : Node} (wellFormed : node.wellFormed = true) {call written : Call}
    (called : ofNode? node = some call) {configs : List (Address × Node)} {address : Address}
    (read : ofNode? (node.inject configs address) = some written) :
    written.callee = call.callee.inject configs (address ++ [0]) := by
  obtain ⟨-, same⟩ | ⟨other, config, again, -, same⟩ := inject_cases configs address wellFormed
  next =>
    rw [same, ofNode?_injectParts configs address wellFormed called] at read
    exact Option.some.inj read ▸ rfl
  next =>
    obtain rfl := Option.some.inj (called.symm.trans again)
    rw [same, ofNode?_toNode, attach_eq] at read
    exact Option.some.inj read ▸ rfl

namespace Grafts

variable {settings : Settings} {file other : Option String} {tally : Tally} {module : Module}
  {survey after : Scope.Survey} {given : List (Address × Node)} {added : List (Export × String)}
  {lines : List Node} (grafts : Grafts settings file tally module survey given added lines)
  (wellFormed : module.wellFormed = true)

include grafts

theorem strange : Scope.Strange module.root (added.map (·.2)) where
  valid := by simpa using fun name entry mem => (grafts.importable (entry, name) mem).2
  word := Scope.none_not_mem (by simpa using fun name entry mem => grafts.words (entry, name) mem)
  apart := by simpa using fun name entry mem => grafts.free (entry, name) mem

include wellFormed

/-- A call that has been worked on is not configured again. -/
theorem isSkipped_of_inject {earlier use : Use} (mem : earlier ∈ module.uses settings file survey)
    (called : Call.ofNode? (earlier.node.inject given earlier.address) = some use.call) :
    use.isSkipped = true := by
  obtain ⟨stands, read, -⟩ := Module.mem_uses mem
  have whole := wellFormed_part? (Module.wellFormed_root wellFormed) stands
  have outlines := Call.map_outline_injected given earlier.address earlier.call
  -- It is configured by now if it was given a configuration, and was skipped before if not.
  cases found : given.lookup earlier.address with
  | some config =>
    obtain ⟨is, twin, among, kept, place⟩ := grafts.configures.of_lookup found
    obtain ⟨here, again, -⟩ := Module.mem_uses among
    rw [place, stands, Option.some.injEq] at here
    rw [← here] at again
    rw [Use.isSkipped, ← Option.some.inj (read.symm.trans again), Bool.or_eq_false_iff] at kept
    obtain ⟨-, -, -, -, -, -, -, -, -, -, grammatical, -⟩ := Call.parts_of_wellFormed whole read
    have ordered : Argument.areOrdered (earlier.call.injected given earlier.address).arguments = true := by
      rw [← Argument.areOrdered_map_outline, outlines, Argument.areOrdered_map_outline]
      exact Argument.areOrdered_of_areGrammatical grammatical
    rw [inject_of_some given _ whole read found] at called
    have configured := Call.attach_isConfigured ordered ((Call.isConfigured_congr outlines).trans kept.1)
      ((Call.hasUnpacking_congr outlines).trans kept.2) is.part.isBareGenerator called
    rw [Use.isSkipped, configured, Bool.true_or]
  | none =>
    rw [inject_of_none given _ found, Call.ofNode?_injectParts given _ whole read] at called
    obtain same := Option.some.inj called
    have skipped : earlier.isSkipped = true := by
      cases kept : earlier.isSkipped with
      | true => rfl
      | false =>
        obtain ⟨config, gift⟩ := grafts.configures.lookup_of_mem mem kept
        exact absurd (gift.symm.trans found) (by simp)
    rwa [Use.isSkipped, ← same, Call.isConfigured_congr outlines, Call.hasUnpacking_congr outlines]

variable (silent : module.hintsAreSilent = true) (surveyed : Scope.survey module = .ok survey)

include silent surveyed

theorem exists_survey : ∃ after clock,
    Scope.survey ((module.inject given).insertLeading lines) = .ok after ∧
      Scope.Grown module.root (added.map (·.2)) (module.placed given lines.length) clock lines.length survey after := by
  obtain ⟨before, after, clock, first, second, grown, -⟩ := Scope.survey_grown wellFormed silent grafts.strange
    (fun found => (grafts.configures.of_lookup found).1) fun line mem => by
      obtain ⟨entry, among, imports⟩ := grafts.exists_importsAs mem
      exact ⟨entry.1, entry.2, imports, List.mem_map_of_mem among, (grafts.importable entry among).2⟩
  obtain rfl := Except.ok.inj (first.symm.trans surveyed)
  exact ⟨after, clock, second, grown⟩

/-- Every call of the written module that is recognised has been recognised before. -/
theorem exists_earlier (again : Scope.survey ((module.inject given).insertLeading lines) = .ok after)
    {use : Use} (mem : use ∈ ((module.inject given).insertLeading lines).uses settings other after) :
    ∃ earlier ∈ module.uses settings file survey,
      use.address = module.placed given lines.length earlier.address ∧
        use.node = earlier.node.inject given earlier.address ∧ use.factory = earlier.factory := by
  obtain ⟨_, clock, same, grown⟩ := grafts.exists_survey wellFormed silent surveyed
  obtain rfl := Except.ok.inj (same.symm.trans again)
  obtain ⟨stands, called, recognised⟩ := Module.mem_uses mem
  simp only [Use.factoryOf?, Option.bind_eq_bind, Option.bind_eq_some_iff] at recognised
  obtain ⟨later, seen, qualified, agrees, listed⟩ := recognised
  obtain ⟨site, earlier, delays, place⟩ := grown.exists_siteOf? seen
  obtain ⟨node, found, is⟩ := delays.isCall
  have whole := wellFormed_part? (Module.wellFormed_root wellFormed) found
  obtain ⟨call, read⟩ := Call.exists_ofNode? whole is
  rw [place, Module.part?_placed wellFormed given lines found is, Option.some.injEq] at stands
  -- A configuration leaves the callee alone, which is all that recognises a call.
  have callee := Call.callee_inject whole read (stands ▸ called)
  have inner : call.callee ∈ module.root.nodes := by
    obtain ⟨_, _, _, _, shape, -⟩ := Call.parts_of_wellFormed whole read
    exact mem_nodes_of_child (mem_nodes.2 ⟨_, found⟩) (by rw [shape]; simp)
  rw [callee] at agrees
  have agreed := grown.agreed delays (fullName_inject _ _ _) (looseName?_inject _ _ _)
    (grafts.strange.fullName inner).not_mem (fun text named => grafts.strange.looseName inner named) agrees
  have before : Use.factoryOf? settings survey site.call call = some use.factory := by
    simp only [Use.factoryOf?, earlier, Option.bind_eq_bind, Option.bind_some, agreed, listed]
  obtain ⟨known, among, address, -, factory⟩ := @Module.exists_mem_uses _ file _ _ _ _ _ _ found read before
  obtain ⟨there, -⟩ := Module.mem_uses among
  rw [address, found, Option.some.injEq] at there
  exact ⟨known, among, by rw [place, address], by rw [← stands, address, there], factory.symm⟩

end Grafts

theorem Node.inject_nil (node : Node) (address : Address) : node.inject [] address = node :=
  inject_of_unlisted [] address fun _ => rfl

theorem Module.inject_nil (module : Module) : module.inject [] = module := by
  rw [Module.inject, injectFrom_eq_self [] [] fun _ node _ => node.inject_nil _]

theorem Module.placed_nil (module : Module) (address : Address) : module.placed [] 0 address = address := by
  have still (above : Address) (i : Nat) : seat module.root [] above i = i := by
    simp only [seat, givenCall?, List.lookup_nil]
    split
    next same => exact absurd same (by split <;> simp_all)
    next => rfl
  have moved (above path : Address) : moved module.root [] above path = path := by
    induction path generalizing above with
    | nil => rfl
    | cons i rest ih => rw [Node.moved, still, ih]
  rw [placed, moved]
  cases address with
  | nil => rfl
  | cons i rest => simp [shifted]

variable {settings : Settings} {file : Option String} {tally : Tally}

/-- Grafting again. Where the hints of a module are silent, a grafting is a fixed point of grafting: the
second finds only uses that have been uses before, and that now have their configuration or hide their
arguments, so that it configures none, requests no import and leaves the module as it is. -/
theorem graft_again {source : String} {module : Module} (parsed : Module.parse? source = some module)
    (silent : module.hintsAreSilent = true) {outcome : Option Module}
    (done : (graft settings file tally module).result = .ok outcome) :
    (∀ next, (graft settings file next (outcome.getD module)).result = .ok none ∧
      (graft settings file next (outcome.getD module)).tally.configured = next.configured) ∧
    ∃ survey after given lines, Scope.survey module = .ok survey ∧
      Scope.survey (outcome.getD module) = .ok after ∧
      outcome.getD module = (module.inject given).insertLeading lines ∧
      ∀ use ∈ (outcome.getD module).uses settings file after,
        (use.call.isConfigured = true ∨ use.call.hasUnpacking = true) ∧
        ∃ earlier ∈ module.uses settings file survey,
          use.address = module.placed given lines.length earlier.address ∧
            use.node = earlier.node.inject given earlier.address ∧ use.factory = earlier.factory := by
  have wellFormed := Module.wellFormed_of_parse? parsed
  obtain ⟨survey, surveyed, -, given, added, lines, grafts⟩ := grafts_of_ok wellFormed done
  suffices settled : ∃ after given lines, Scope.survey (outcome.getD module) = .ok after ∧
      outcome.getD module = (module.inject given).insertLeading lines ∧
      ∀ use ∈ (outcome.getD module).uses settings file after, use.isSkipped = true ∧
        ∃ earlier ∈ module.uses settings file survey,
          use.address = module.placed given lines.length earlier.address ∧
            use.node = earlier.node.inject given earlier.address ∧ use.factory = earlier.factory by
    obtain ⟨after, given, lines, again, same, each⟩ := settled
    refine ⟨fun next => graft_of_skipped again fun use mem => (each use mem).1,
      survey, after, given, lines, surveyed, again, same, fun use mem => ?_⟩
    obtain ⟨skipped, earlier⟩ := each use mem
    rw [Use.isSkipped, Bool.or_eq_true] at skipped
    exact ⟨skipped, earlier⟩
  have result := grafts.result.symm.trans done
  cases given with
  | nil =>
    obtain rfl : none = outcome := Except.ok.inj result
    refine ⟨survey, [], [], surveyed, by rw [Module.inject_nil, Module.insertLeading_nil]; rfl,
      fun use mem => ⟨?_, use, mem, (module.placed_nil _).symm, (use.node.inject_nil _).symm, rfl⟩⟩
    cases kept : use.isSkipped with
    | true => rfl
    | false =>
      obtain ⟨config, gift⟩ := grafts.configures.lookup_of_mem mem kept
      exact absurd gift (by simp)
  | cons first rest =>
    obtain rfl : some ((module.inject (first :: rest)).insertLeading lines) = outcome := Except.ok.inj result
    obtain ⟨after, _, again, -⟩ := grafts.exists_survey wellFormed silent surveyed
    refine ⟨after, first :: rest, lines, again, rfl, fun use mem => ?_⟩
    obtain ⟨earlier, among, place, node, factory⟩ := grafts.exists_earlier wellFormed silent surveyed again mem
    obtain ⟨-, called, -⟩ := Module.mem_uses mem
    exact ⟨grafts.isSkipped_of_inject wellFormed among (node ▸ called), earlier, among, place, node, factory⟩

/-- A call with a hint that is silent. -/
theorem graft_again_plain_call : ∃ module written,
    Module.parse? "from formkit.vue import FormKit\n\ndef form(el: \"Element\"):\n    return FormKit(el)\n" = some module ∧
      module.hintsAreSilent = true ∧ (graft .standard none {} module).result = .ok (some written) ∧
        (graft .standard none {} written).result = .ok none := by
  have check : ((Module.parse? "from formkit.vue import FormKit\n\ndef form(el: \"Element\"):\n    return FormKit(el)\n").map
      fun module => module.hintsAreSilent && (graft .standard none {} module).result.toOption.join.isSome) =
        some true := by
    decide +kernel
  obtain ⟨module, parsed, check⟩ := Option.map_eq_some_iff.1 check
  rw [Bool.and_eq_true, Option.isSome_iff_exists] at check
  obtain ⟨silent, written, found⟩ := check
  have done := eq_ok_of_toOption (Option.join_eq_some_iff.1 found)
  exact ⟨module, written, parsed, silent, done, ((graft_again parsed silent done).1 {}).1⟩

/-- A hint that declares a name and imports it. The new imports finish its import in time for the call. -/
theorem graft_again_of_importing_hint : ∃ module written again,
    Module.parse? "from formkit.vue import FormKit as F\nfrom typing import Optional\ntry:\n    import x\nexcept E:\n    lambda: Optional[\"global FormKit\\nfrom formkit.vue import FormKit\"]\nF(el)\nFormKit(el)\n" =
        some module ∧
      (graft .standard none {} module).result = .ok (some written) ∧
        (graft .standard none {} written).result = .ok (some again) ∧
          (graft .standard none {} written).tally.configured = 1 ∧
            ∃ survey after, Scope.survey module = .ok survey ∧ Scope.survey written = .ok after ∧
              (module.uses .standard none survey).map (·.node.source) = ["F(el)"] ∧
                (written.uses .standard none after).map (·.node.source) =
                  ["F(el, None, \x7b\"plugins\": [bindings, library]\x7d)", "FormKit(el)"] := by
  have check : ((Module.parse? "from formkit.vue import FormKit as F\nfrom typing import Optional\ntry:\n    import x\nexcept E:\n    lambda: Optional[\"global FormKit\\nfrom formkit.vue import FormKit\"]\nF(el)\nFormKit(el)\n").bind
      fun module => (Scope.survey module).toOption.bind fun survey =>
        (graft .standard none {} module).result.toOption.join.bind fun written =>
          (Scope.survey written).toOption.bind fun after =>
            (graft .standard none {} written).result.toOption.join.map fun _ =>
              (graft .standard none {} written).tally.configured = 1 &&
                (module.uses .standard none survey).map (·.node.source) = ["F(el)"] &&
                  (written.uses .standard none after).map (·.node.source) =
                    ["F(el, None, \x7b\"plugins\": [bindings, library]\x7d)", "FormKit(el)"]) = some true := by
    decide +kernel
  obtain ⟨module, parsed, check⟩ := Option.bind_eq_some_iff.1 check
  obtain ⟨survey, first, check⟩ := Option.bind_eq_some_iff.1 check
  obtain ⟨written, found, check⟩ := Option.bind_eq_some_iff.1 check
  obtain ⟨after, second, check⟩ := Option.bind_eq_some_iff.1 check
  obtain ⟨again, changed, check⟩ := Option.map_eq_some_iff.1 check
  simp only [Bool.and_eq_true, decide_eq_true_eq] at check
  exact ⟨module, written, again, parsed, eq_ok_of_toOption (Option.join_eq_some_iff.1 found),
    eq_ok_of_toOption (Option.join_eq_some_iff.1 changed), check.1.1, survey, after, eq_ok_of_toOption first,
    eq_ok_of_toOption second, check.1.2, check.2⟩

end Graft
