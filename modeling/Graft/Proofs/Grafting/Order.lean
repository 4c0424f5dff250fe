import Graft.Proofs.Grafting.Leading
import Graft.Proofs.Grafting.Statements
import Graft.Proofs.Registry.Reuse

set_option autoImplicit false

/-!
Whether plugins are imported before they are used. The new imports stand behind the leading section,
which is too late for the calls in the clauses of a leading `try`.
-/
namespace Graft

open Node

/-- Whether an import of a name ends before the part at an address. -/
def Module.importsBefore (module : Module) (name : String) (address : Address) : Bool :=
  module.root.walk.any fun located =>
    located.2.isImport && located.2.boundNames.contains name && located.1.precedes address

/-- Whether a part stands behind the leading section. -/
def Module.isBehindLeading (module : Module) (address : Address) : Bool :=
  address.head?.any fun i => module.leadingEnd < i

namespace Node

theorem isStatement_of_isImport {node : Node} (is : node.isImport = true) : node.isStatement = true := by
  cases node with
  | leaf l => exact absurd is (by simp [isImport, isImportFrom, isA])
  | name parens id => exact absurd is (by simp [isImport, isImportFrom, isA])
  | branch kind parens children =>
    simp only [isImport, isImportFrom, isA, Bool.or_eq_true, decide_eq_true_eq] at is
    obtain rfl | rfl := is <;> rfl

theorem isCallFree_of_isImport {node : Node} (wellFormed : node.wellFormed = true)
    (is : node.isImport = true) : node.IsCallFree := by
  simp only [isImport, isImportFrom, Bool.or_eq_true] at is
  exact is.elim (isCallFree_of_isQuiet wellFormed rfl) (isCallFree_of_isQuiet wellFormed rfl)

theorem mem_boundNames_of_exports {node : Node} (wellFormed : node.wellFormed = true)
    {entry : Export × String} (mem : entry ∈ node.exports) : entry.2 ∈ node.boundNames := by
  have valid := (exports_isIdentifier wellFormed mem).1
  unfold exports at mem
  split at mem
  next parens word dots source between aliases closing =>
    split at mem
    next =>
      obtain ⟨⟨exported, bound⟩, found, rfl⟩ := List.mem_map.1 mem
      refine List.mem_flatMap.2 ⟨(exported, bound), found, ?_⟩
      cases bound with
      | none => simp [Scope.prefixes_of_isIdentifier (show isIdentifier exported = true from valid)]
      | some bound => simp
    next => exact absurd mem (by simp)
  next => exact absurd mem (by simp)

end Node

theorem ImportsAs.boundNames {line : Node} {wanted : Export} {bound : String}
    (imports : ImportsAs line wanted bound) (valid : isIdentifier bound = true) :
    ∃ statement, line.children[1]? = some statement ∧ statement.isImport = true ∧
      statement.boundNames = [bound] := by
  obtain ⟨parts, ending, rfl, said⟩ := imports.shape
  refine ⟨.plain .importFrom parts, rfl, rfl, ?_⟩
  rw [Node.boundNames, said]
  exact wanted.boundNames_clause valid

namespace Module

theorem importsBefore_iff {module : Module} {name : String} {address : Address} :
    module.importsBefore name address = true ↔ ∃ place node, module.root.part? place = some node ∧
      node.isImport = true ∧ name ∈ node.boundNames ∧ place.precedes address = true := by
  simp [importsBefore, mem_walk, and_assoc]

theorem isBehindLeading_cons {module : Module} {i : Nat} {rest : Address} :
    module.isBehindLeading (i :: rest) = true ↔ module.leadingEnd < i := by
  simp [isBehindLeading]

variable {module : Module} {given : List (Address × Node)} {lines : List Node} {name : String}

theorem precedes_placed (count : Nat) (first second : Address) :
    (module.placed given count first).precedes (module.placed given count second) =
      first.precedes second := by
  rw [placed, placed, precedes_shifted, precedes_moved]

theorem placed_of_isStatement (wellFormed : module.wellFormed = true) {address : Address}
    {statement : Node} (found : module.root.part? address = some statement)
    (is : statement.isStatement = true) (count : Nat) :
    module.placed given count address = (module.inject given).shifted count address := by
  have same := @moved_of_isStatement given _ (wellFormed_root wellFormed) [] address _ found is
  rw [placed, same]

/-- The imports of a module still precede what they preceded. -/
theorem importsBefore_kept (wellFormed : module.wellFormed = true) {address : Address}
    (before : module.importsBefore name address = true) :
    ((module.inject given).insertLeading lines).importsBefore name
      (module.placed given lines.length address) = true := by
  obtain ⟨place, node, found, imports, bound, earlier⟩ := importsBefore_iff.1 before
  have is := isStatement_of_isImport imports
  have inside : place ≠ [] := by
    rintro rfl
    exact absurd earlier (by simp [Address.precedes])
  have free := isCallFree_of_isImport (wellFormed_part? (wellFormed_root wellFormed) found) imports
  refine importsBefore_iff.2 ⟨module.placed given lines.length place, node, ?_, imports, bound, ?_⟩
  next =>
    rw [placed_of_isStatement wellFormed found is, part?_insertLeading _ _ inside, root_inject,
      part?_inject_of_isStatement (wellFormed_root wellFormed) found is, inject_of_isCallFree _ _ free]
  next => rwa [precedes_placed]

/-- The first step to a part moves on behind the leading section only. -/
theorem exists_placed (count i : Nat) (rest : Address) : ∃ below,
    module.placed given count (i :: rest) =
      (if i ≤ module.leadingEnd then i else i + count) :: below := by
  rw [← leadingEnd_inject module]
  exact ⟨_, rfl⟩

/-- An import that precedes a part of the written module is one of the module itself, or a new one,
which precedes nothing in the leading section. -/
theorem of_importsBefore (wellFormed : module.wellFormed = true) (expressions : AreExpressions given)
    {address : Address} (before : ((module.inject given).insertLeading lines).importsBefore name
      (module.placed given lines.length address) = true) :
    module.isBehindLeading address = true ∨ module.importsBefore name address = true := by
  obtain ⟨place, node, found, imports, bound, earlier⟩ := importsBefore_iff.1 before
  have is := isStatement_of_isImport imports
  obtain _ | ⟨i, rest⟩ := place
  next => exact absurd earlier (by simp [Address.precedes])
  obtain _ | ⟨j, below⟩ := address
  next => exact absurd earlier (by simp [placed, moved, shifted, Address.precedes])
  obtain ⟨l, same⟩ | ⟨k, new, rfl⟩ := (module.inject given).exists_shifted lines.length i rest
  next =>
    rw [same, part?_insertLeading _ _ (by simp), root_inject] at found
    obtain ⟨original, stood, rfl⟩ :=
      exists_part?_of_inject expressions (wellFormed_root wellFormed) found is
    have imported : original.isImport = true := (isImport_inject given _ original).symm.trans imports
    have free := isCallFree_of_isImport (wellFormed_part? (wellFormed_root wellFormed) stood) imported
    rw [inject_of_isCallFree _ _ free] at bound
    refine .inr (importsBefore_iff.2 ⟨l :: rest, original, stood, imported, bound, ?_⟩)
    rwa [same, ← placed_of_isStatement wellFormed stood (isStatement_of_isImport imported),
      precedes_placed] at earlier
  next =>
    obtain ⟨after, same⟩ := @exists_placed module given lines.length j below
    rw [same, Address.precedes_cons, leadingEnd_inject] at earlier
    refine .inl (isBehindLeading_cons.2 ?_)
    split at earlier <;> omega

theorem take_childrenFrom (address : Address) (index n : Nat) (nodes : List Node) :
    (childrenFrom address index nodes).take n = childrenFrom address index (nodes.take n) := by
  induction nodes generalizing index n with
  | nil => simp [childrenFrom]
  | cons node rest ih => cases n <;> simp [childrenFrom, ih]

theorem not_isBehindLeading_of_mem_leadingImports {located : Located}
    (mem : located ∈ module.leadingImports) :
    ∃ i rest, located.1 = i :: rest ∧ i ≤ module.leadingEnd := by
  obtain ⟨⟨address, statement⟩, leading, mem⟩ := List.mem_flatMap.1 mem
  rw [statementsAt, take_childrenFrom, mem_childrenFrom] at leading
  obtain ⟨i, rfl, found⟩ := leading
  have early := (List.getElem?_eq_some_iff.1 found).1
  rw [List.length_take] at early
  obtain ⟨path, place, -⟩ := part?_of_mem_importFroms mem
  exact ⟨1 + i, path, place, by omega⟩

/-- What a leading import binds is bound before all that stands behind the leading section. -/
theorem importsBefore_of_known (wellFormed : module.wellFormed = true) {survey : Scope.Survey}
    {wanted : Export} (known : (wanted, name) ∈ (Registry.ofModule module survey).1.known)
    {address : Address} (behind : module.isBehindLeading address = true) :
    module.importsBefore name address = true := by
  obtain ⟨located, leading, exported⟩ := List.mem_flatMap.1 (Registry.mem_known known).1
  obtain ⟨found, -, imports⟩ := part?_of_mem_leadingImports leading
  obtain ⟨i, rest, place, early⟩ := not_isBehindLeading_of_mem_leadingImports leading
  obtain _ | ⟨j, below⟩ := address
  next => exact absurd behind (by simp [isBehindLeading])
  have late := isBehindLeading_cons.1 behind
  refine importsBefore_iff.2 ⟨located.1, located.2, found, by simp [isImport, imports],
    mem_boundNames_of_exports (wellFormed_of_mem_leadingImports wellFormed leading) exported, ?_⟩
  rw [place, Address.precedes_cons]
  omega

end Module

variable {settings : Settings} {file : Option String} {tally : Tally} {module : Module}
  {survey : Scope.Survey} {given : List (Address × Node)} {added : List (Export × String)}
  {lines : List Node}

namespace Grafts

variable (grafts : Grafts settings file tally module survey given added lines)

include grafts

theorem areExpressions : AreExpressions given := fun _ _ found =>
  holdsNoStatement_of_part (grafts.configures.of_lookup found).1.part

/-- A new import stands before all that stands behind the leading section. -/
theorem importsBefore_of_added {wanted : Export} {name : String} (mem : (wanted, name) ∈ added)
    {address : Address} (behind : module.isBehindLeading address = true) :
    ((module.inject given).insertLeading lines).importsBefore name
      (module.placed given lines.length address) = true := by
  obtain ⟨importable, valid⟩ := grafts.importable _ mem
  obtain ⟨line, made, imports⟩ := importLine_eq_ok importable valid
  obtain ⟨k, among⟩ := List.getElem?_of_mem mem
  have place : lines[k]? = some line := by
    have written := congrArg (·[k]?) grafts.lines
    simp only [List.getElem?_map, among, Option.map_some, made] at written
    simpa using written
  have new := (List.getElem?_eq_some_iff.1 place).1
  obtain ⟨statement, here, is, bound⟩ := imports.boundNames valid
  obtain _ | ⟨j, below⟩ := address
  next => exact absurd behind (by simp [Module.isBehindLeading])
  have late := Module.isBehindLeading_cons.1 behind
  refine Module.importsBefore_iff.2
    ⟨((module.inject given).leadingEnd + 1 + k) :: [1], statement, ?_, is, by simp [bound], ?_⟩
  next =>
    rw [Module.part?_inserted _ new, place, Option.bind_some, part?_cons, here]
    rfl
  next =>
    obtain ⟨after, same⟩ := @Module.exists_placed module given lines.length j below
    rw [same, Address.precedes_cons, Module.leadingEnd_inject, if_neg (by omega)]
    omega

/-- A name that the registry knows is imported before a part of the written module exactly if that
stands behind the leading section, or if the module itself has imported the name before it. -/
theorem importsBefore_iff (wellFormed : module.wellFormed = true) {wanted : Export} {name : String}
    (known : ((Registry.ofModule module survey).1.known ++ added).lookup wanted = some name)
    (address : Address) : ((module.inject given).insertLeading lines).importsBefore name
        (module.placed given lines.length address) = true ↔
      module.isBehindLeading address = true ∨ module.importsBefore name address = true := by
  constructor
  next => exact Module.of_importsBefore wellFormed grafts.areExpressions
  next =>
    rintro (behind | before)
    next =>
      obtain ⟨first, last, split, -⟩ := List.lookup_eq_some_iff.1 known
      have mem : (wanted, name) ∈ (Registry.ofModule module survey).1.known ++ added := by simp [split]
      obtain old | new := List.mem_append.1 mem
      next => exact Module.importsBefore_kept wellFormed (Module.importsBefore_of_known wellFormed old behind)
      next => exact grafts.importsBefore_of_added new behind
    next => exact Module.importsBefore_kept wellFormed before

end Grafts

/-- The plugins of a call that has got a configuration are imported before it exactly if it stands
behind the leading section, or if the module itself has imported them before the call. -/
theorem graft_importsBefore_iff {source : String} (parsed : Module.parse? source = some module)
    {written : Module} (done : (graft settings file tally module).result = .ok (some written)) :
    ∃ survey given lines, Scope.survey module = .ok survey ∧
      written = (module.inject given).insertLeading lines ∧
        ∀ use ∈ module.uses settings file survey, use.isSkipped = false →
          ∃ bindings library : Identifier,
            written.root.part? (module.placed given lines.length use.address) =
                some ((use.call.injected given use.address).attach (.configOf bindings library)).toNode ∧
              ∀ name ∈ [bindings.text, library.text],
                (written.importsBefore name (module.placed given lines.length use.address) = true ↔
                  module.isBehindLeading use.address = true ∨
                    module.importsBefore name use.address = true) := by
  have wellFormed := Module.wellFormed_of_parse? parsed
  obtain ⟨survey, surveyed, -, given, added, lines, grafts⟩ := grafts_of_ok wellFormed done
  have same : written = (module.inject given).insertLeading lines := by
    rw [grafts.result] at done
    split at done
    next => exact absurd done (by simp)
    next => exact (Option.some.inj (Except.ok.inj done)).symm
  refine ⟨survey, given, lines, surveyed, same, fun use mem kept => ?_⟩
  obtain ⟨found, called, -⟩ := Module.mem_uses mem
  obtain ⟨config, gift⟩ := grafts.configures.lookup_of_mem mem kept
  obtain ⟨bindings, library, rfl, first, _, second⟩ := grafts.configures.names_of_lookup gift
  obtain ⟨callee, opening, arguments, closing, shape⟩ := isA_call_of_ofNode? called
  refine ⟨bindings, library, ?_, ?_⟩
  next =>
    rw [same, Module.part?_placed wellFormed given lines found (shape ▸ rfl),
      inject_of_some given _ (wellFormed_part? (Module.wellFormed_root wellFormed) found) called gift]
  next =>
    rw [same]
    simp only [List.mem_cons, List.not_mem_nil, or_false, forall_eq_or_imp, forall_eq]
    exact ⟨grafts.importsBefore_iff wellFormed first _, grafts.importsBefore_iff wellFormed second _⟩

/-- The plugins of a call behind the imports are imported before it. -/
theorem graft_imports_before_plain_call : ∃ module written place call,
    ∃ bindings library : Identifier,
      Module.parse? "from formkit.vue import FormKit\nFormKit(el)\n" = some module ∧
        (graft .standard none {} module).result = .ok (some written) ∧
          written.root.part? place = some (Call.attach call (.configOf bindings library)).toNode ∧
            written.importsBefore bindings.text place = true ∧
              written.importsBefore library.text place = true := by
  have check : ((Module.parse? "from formkit.vue import FormKit\nFormKit(el)\n").bind fun module =>
      (Scope.survey module).toOption.map fun survey =>
        (graft .standard none {} module).result.toOption.join.isSome &&
          (module.uses .standard none survey).any fun use =>
            !use.isSkipped && module.isBehindLeading use.address) = some true := by
    decide +kernel
  obtain ⟨module, parsed, check⟩ := Option.bind_eq_some_iff.1 check
  obtain ⟨survey, surveyed, check⟩ := Option.map_eq_some_iff.1 check
  simp only [Bool.and_eq_true, List.any_eq_true, Bool.not_eq_true', Option.isSome_iff_exists] at check
  obtain ⟨⟨written, found⟩, use, mem, kept, behind⟩ := check
  have done := eq_ok_of_toOption (Option.join_eq_some_iff.1 found)
  obtain ⟨_, given, lines, same, -, plugins⟩ := graft_importsBefore_iff parsed done
  obtain rfl := Except.ok.inj ((eq_ok_of_toOption surveyed).symm.trans same)
  obtain ⟨bindings, library, stands, imported⟩ := plugins use mem kept
  exact ⟨module, written, _, _, bindings, library, parsed, done, stands,
    (imported _ (by simp)).2 (.inl behind), (imported _ (by simp)).2 (.inl behind)⟩

/-- The handler of a leading `try` stands before the new imports. -/
theorem graft_imports_after_handler : ∃ module survey use written place node,
    Module.parse? "from formkit.vue import FormKit\ntry:\n    import fast\nexcept ImportError:\n    FormKit(el)\n" =
        some module ∧
      Scope.survey module = .ok survey ∧ use ∈ module.uses .standard none survey ∧
        use.isSkipped = false ∧ (graft .standard none {} module).result = .ok (some written) ∧
          written.root.part? place = some node ∧
            node.source = "FormKit(el, None, \x7b\"plugins\": [bindings, library]\x7d)" ∧
              written.importsBefore "bindings" place = false ∧
                written.importsBefore "library" place = false := by
  have check : ((Module.parse? "from formkit.vue import FormKit\ntry:\n    import fast\nexcept ImportError:\n    FormKit(el)\n").bind
      fun module => (Scope.survey module).toOption.bind fun survey =>
        (graft .standard none {} module).result.toOption.join.map fun written =>
          ((module.uses .standard none survey).any fun use => !use.isSkipped) &&
            written.root.walk.any fun located =>
              located.2.source == "FormKit(el, None, \x7b\"plugins\": [bindings, library]\x7d)" &&
                !written.importsBefore "bindings" located.1 &&
                  !written.importsBefore "library" located.1) = some true := by
    decide +kernel
  obtain ⟨module, parsed, check⟩ := Option.bind_eq_some_iff.1 check
  obtain ⟨survey, surveyed, check⟩ := Option.bind_eq_some_iff.1 check
  obtain ⟨written, done, check⟩ := Option.map_eq_some_iff.1 check
  simp only [Bool.and_eq_true, List.any_eq_true, Bool.not_eq_true', beq_iff_eq] at check
  obtain ⟨⟨use, mem, kept⟩, ⟨place, node⟩, walked, ⟨source, first⟩, second⟩ := check
  exact ⟨module, survey, use, written, place, node, parsed, eq_ok_of_toOption surveyed, mem, kept,
    eq_ok_of_toOption (Option.join_eq_some_iff.1 done), mem_walk.1 walked, source, first, second⟩

end Graft
