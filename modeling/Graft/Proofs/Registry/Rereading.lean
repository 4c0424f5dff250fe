import Graft.Proofs.Grafting.Idempotence
import Graft.Proofs.Grafting.Order
import Graft.Proofs.Registry.Session
import Mathlib.Data.List.Nodup

set_option autoImplicit false

/-!
The registry of a module that another registry has written its imports into. What was known to the one is
known to the other, under the same names.
-/
namespace Graft

open Node

/-- Only the first statement can be a docstring, so statements that come later lead no more. -/
theorem Node.isLeading_of_later {index : Nat} {statement : Node} (count : Nat)
    (leads : statement.isLeading (index + count) = true) : statement.isLeading index = true := by
  unfold isLeading isDocstring at leads ⊢
  by_cases first : index = 0
  · simp only [Bool.or_eq_true, Bool.and_eq_true] at leads ⊢
    simp only [first, decide_true, true_and]
    exact leads.imp_left fun docstring => docstring.imp_left And.right
  · simp only [first, show index + count ≠ 0 by omega, decide_false, Bool.false_and] at leads ⊢
    exact leads

theorem leadingFrom_lines {lines : List Node} (imports : ∀ line ∈ lines, line.isImportLine = true)
    (index : Nat) (rest : List Node) :
    leadingFrom index (lines ++ rest) = lines.length + leadingFrom (index + lines.length) rest := by
  induction lines generalizing index with
  | nil => simp
  | cons line lines ih =>
    have leads : line.isLeading index = true := by
      simp [isLeading, imports line (by simp)]
    rw [List.cons_append, leadingFrom, if_pos leads, ih fun other mem => imports other (by simp [mem])]
    rw [List.length_cons, Nat.add_right_comm index, Nat.add_assoc index]
    omega

theorem leadingFrom_insert {lines : List Node} (imports : ∀ line ∈ lines, line.isImportLine = true)
    (index : Nat) (body : List Node) :
    leadingFrom index (body.take (leadingFrom index body) ++ lines ++ body.drop (leadingFrom index body)) =
      leadingFrom index body + lines.length := by
  induction body generalizing index with
  | nil => simpa [leadingFrom] using leadingFrom_lines imports index []
  | cons statement rest ih =>
    by_cases leads : statement.isLeading index = true
    · have more : leadingFrom index (statement :: rest) = leadingFrom (index + 1) rest + 1 := by
        rw [leadingFrom, if_pos leads]
      rw [more, List.take_succ_cons, List.drop_succ_cons, List.cons_append, List.cons_append,
        leadingFrom, if_pos leads, ih]
      omega
    · have none : leadingFrom index (statement :: rest) = 0 := by rw [leadingFrom, if_neg leads]
      have ends : leadingFrom (index + lines.length) (statement :: rest) = 0 := by
        rw [leadingFrom, if_neg fun later => leads (isLeading_of_later _ later)]
      rw [none, List.take_zero, List.drop_zero, List.nil_append, leadingFrom_lines imports, ends, Nat.add_comm]

theorem Module.leadingEnd_insertLeading (module : Module) {lines : List Node}
    (imports : ∀ line ∈ lines, line.isImportLine = true) :
    (module.insertLeading lines).leadingEnd = module.leadingEnd + lines.length :=
  leadingFrom_insert imports 0 module.body

/-- What an import line is to a registry that reads it. -/
structure ReadsAs (line : Node) (wanted : Export) (bound : String) : Prop where
  isImportLine : line.isImportLine = true
  imports : ∀ address, ∃ statement, importFroms (address, line) = [(address ++ [1], statement)] ∧
    statement.exports = [(wanted, bound)]

theorem readsAs_of_importLine {wanted : Export} {bound : String} {line : Node}
    (made : importLine wanted bound = .ok line) : ReadsAs line wanted bound := by
  obtain ⟨source, binder, valid, spells, -, -, binds, rfl⟩ := exists_parts_of_importLine made
  refine ⟨rfl, fun address => ⟨_, rfl, ?_⟩⟩
  have present : source.isAbsent = false := by
    refine Bool.eq_false_iff.2 fun absent => ?_
    unfold isAbsent at absent
    split at absent
    next => exact absurd spells.isDotted (by simp [isDotted])
    next => exact absurd absent (by simp)
  have dots : absent.dotCount = 0 := rfl
  have named : (binder.boundName?).getD wanted.name = bound := by
    rw [binds.boundName?]
    split
    next same => exact same.symm
    next => rfl
  simp [Node.plain, exports, dots, present, Node.children, aliasNames?, spells.fullName, Node.fullName, named]

theorem imports_of_lines {added : List (Export × String)} {lines : List Node}
    (made : List.Forall₂ (fun entry line => importLine entry.1 entry.2 = .ok line) added lines) (index : Nat) :
    ((childrenFrom [] index lines).flatMap importFroms).map (·.1) =
        (List.range lines.length).map (fun k => [index + k, 1]) ∧
      ((childrenFrom [] index lines).flatMap importFroms).flatMap (fun located => located.2.exports) =
        added := by
  induction made generalizing index with
  | nil => exact ⟨rfl, rfl⟩
  | @cons entry line added lines first _ ih =>
    obtain ⟨statement, imports, exports⟩ := (readsAs_of_importLine first).imports [index]
    obtain ⟨addresses, others⟩ := ih (index + 1)
    rw [childrenFrom, List.flatMap_cons, List.nil_append, imports]
    constructor
    · rw [List.map_append, addresses, List.length_cons, List.range_succ_eq_map]
      simp [Function.comp_def, Nat.add_assoc, Nat.add_comm 1]
    · rw [List.flatMap_append, others]
      simp [exports]

section

variable {module : Module} {added : List (Export × String)} {lines : List Node}
  (made : List.Forall₂ (fun entry line => importLine entry.1 entry.2 = .ok line) added lines)

include made

theorem isImportLine_of_made : ∀ line ∈ lines, line.isImportLine = true := by
  intro line mem
  induction made with
  | nil => exact absurd mem List.not_mem_nil
  | cons first _ ih =>
    rcases List.mem_cons.1 mem with rfl | mem
    · exact (readsAs_of_importLine first).isImportLine
    · exact ih mem

/-- The imports of the module lead as before, and the inserted ones behind them. -/
theorem leadingImports_insertLeading : (module.insertLeading lines).leadingImports =
    module.leadingImports ++
      (childrenFrom [] (module.leadingEnd + 1) lines).flatMap importFroms := by
  have bound := module.leadingEnd_le
  have length : (module.body.take module.leadingEnd).length = module.leadingEnd :=
    List.length_take_of_le bound
  have statements : (module.insertLeading lines).body.take (module.leadingEnd + lines.length) =
      module.body.take module.leadingEnd ++ lines := by
    rw [Module.insertLeading, List.take_append_of_le_length (by simp [bound]), List.take_of_length_le]
    simp [bound]
  rw [Module.leadingImports, Module.leadingImports, Module.statementsAt, Module.statementsAt,
    module.leadingEnd_insertLeading (isImportLine_of_made made), Module.take_childrenFrom, Module.take_childrenFrom,
    statements, childrenFrom_append, List.flatMap_append, length, Nat.add_comm 1]

theorem leading_insertLeading : (module.insertLeading lines).leadingImports.map (·.1) =
    module.leadingImports.map (·.1) ++
      (List.range lines.length).map fun k => [module.leadingEnd + 1 + k, 1] := by
  rw [leadingImports_insertLeading made, List.map_append, (imports_of_lines made _).1]

theorem candidates_insertLeading :
    Registry.candidates (module.insertLeading lines) = Registry.candidates module ++ added := by
  rw [Registry.candidates, Registry.candidates, leadingImports_insertLeading made, List.flatMap_append,
    (imports_of_lines made _).2]

end

namespace Registry

theorem foldl_learn {known added : List (Export × String)}
    (lacks : ∀ entry ∈ added, known.lookup entry.1 = none) (distinct : (added.map (·.1)).Nodup) :
    added.foldl learn known = known ++ added := by
  induction added generalizing known with
  | nil => exact (List.append_nil known).symm
  | cons entry rest ih =>
    simp only [List.map_cons, List.nodup_cons] at distinct
    have new : learn known entry = known ++ [entry] := by
      rw [learn, lacks entry (by simp)]
      rfl
    rw [List.foldl_cons, new, ih ?_ distinct.2, List.append_assoc, List.singleton_append]
    intro other mem
    have apart : other.1 ≠ entry.1 := fun same => distinct.1 (same ▸ List.mem_map_of_mem mem)
    rw [List.lookup_append, lacks other (by simp [mem]), List.lookup_cons, beq_false_of_ne apart]
    rfl

theorem name_mem_identifiers {module : Module} (wellFormed : module.wellFormed = true)
    {candidate : Export × String} (mem : candidate ∈ candidates module) :
    candidate.2 ∈ module.root.identifiers := by
  obtain ⟨located, leading, exported⟩ := List.mem_flatMap.1 mem
  have found := (Module.part?_of_mem_leadingImports leading).1
  exact Node.mem_identifiers_of_exports (Node.mem_nodes.2 ⟨_, found⟩)
    (Module.wellFormed_of_mem_leadingImports wellFormed leading) exported

/-- What the requests of a session have added: new names for exports that were lacking. -/
structure Adds (module : Module) (survey : Scope.Survey) (added : List (Export × String)) : Prop where
  free : ∀ entry ∈ added, entry.2 ∉ module.root.identifiers
  names : (added.map (·.2)).Nodup
  lacks : ∀ entry ∈ added, (ofModule module survey).1.known.lookup entry.1 = none
  exports : (added.map (·.1)).Nodup

theorem Adds.isSingle_old {module : Module} {survey : Scope.Survey} {added : List (Export × String)}
    (adds : Adds module survey added) (wellFormed : module.wellFormed = true)
    {candidate : Export × String} (mem : candidate ∈ candidates module) :
    isSingle (candidates module ++ added) candidate = isSingle (candidates module) candidate := by
  have spelled := name_mem_identifiers wellFormed mem
  have apart : added.all (fun other => other.2 != candidate.2 || other.1 == candidate.1) = true := by
    rw [List.all_eq_true]
    intro other among
    have differs : other.2 ≠ candidate.2 := fun same => adds.free other among (same ▸ spelled)
    simp [differs]
  rw [isSingle, List.all_append, apart, Bool.and_true, isSingle]

theorem Adds.isSingle_new {module : Module} {survey : Scope.Survey} {added : List (Export × String)}
    (adds : Adds module survey added) (wellFormed : module.wellFormed = true)
    {entry : Export × String} (mem : entry ∈ added) :
    isSingle (candidates module ++ added) entry = true := by
  rw [isSingle, List.all_eq_true]
  intro other among
  rcases List.mem_append.1 among with old | new
  · have differs : other.2 ≠ entry.2 :=
      fun same => adds.free entry mem (same ▸ name_mem_identifiers wellFormed old)
    simp [differs]
  · by_cases same : other.2 = entry.2
    · rw [List.inj_on_of_nodup_map adds.names new mem same]
      simp
    · simp [same]

/-- The registry of the written module knows what was known before, and what was added, if the bindings
of the names agree. -/
theorem Adds.known_eq {module : Module} {survey after : Scope.Survey} {added : List (Export × String)}
    (adds : Adds module survey added) (wellFormed : module.wellFormed = true) {lines : List Node}
    (made : List.Forall₂ (fun entry line => importLine entry.1 entry.2 = .ok line) added lines)
    (old : ∀ name ∈ module.root.identifiers,
      isRebound after ((module.insertLeading lines).leadingImports.map (·.1)) name =
        isRebound survey (module.leadingImports.map (·.1)) name)
    (new : ∀ entry ∈ added,
      isRebound after ((module.insertLeading lines).leadingImports.map (·.1)) entry.2 = false) :
    (ofModule (module.insertLeading lines) after).1.known = (ofModule module survey).1.known ++ added := by
  have kept : (candidates module).filter (isSingle (candidates module ++ added)) =
      (candidates module).filter (isSingle (candidates module)) :=
    List.filter_congr fun candidate mem => adds.isSingle_old wellFormed mem
  have gained : added.filter (isSingle (candidates module ++ added)) = added :=
    List.filter_eq_self.2 fun entry mem => adds.isSingle_new wellFormed mem
  have bound : ((candidates module).filter (isSingle (candidates module))).filter
        (fun candidate =>
          !isRebound after ((module.insertLeading lines).leadingImports.map (·.1)) candidate.2) =
      ((candidates module).filter (isSingle (candidates module))).filter
        (fun candidate => !isRebound survey (module.leadingImports.map (·.1)) candidate.2) :=
    List.filter_congr fun candidate mem => by
      rw [old _ (name_mem_identifiers wellFormed (List.mem_of_mem_filter mem))]
  have fresh : added.filter (fun candidate =>
      !isRebound after ((module.insertLeading lines).leadingImports.map (·.1)) candidate.2) = added :=
    List.filter_eq_self.2 fun entry mem => by rw [new entry mem]; rfl
  simp only [ofModule, candidates_insertLeading made, List.filter_append, kept, gained, bound, fresh,
    List.foldl_append]
  exact foldl_learn adds.lacks adds.exports

end Registry

theorem Scope.Survey.mem_bindingsOf_iff {survey : Survey} {name : String} {binding : Binding} :
    binding ∈ survey.bindingsOf name ↔ ∃ scope, binding ∈ survey.own scope name := by
  simp only [bindingsOf, List.mem_flatMap]
  constructor
  · rintro ⟨frame, mem, among⟩
    obtain ⟨scope, here⟩ := List.getElem?_of_mem mem
    refine ⟨scope, ?_⟩
    rwa [own, Survey.frame, List.getD_eq_getElem?_getD, here, Option.getD_some]
  · rintro ⟨scope, among⟩
    rw [own, Survey.frame, List.getD_eq_getElem?_getD] at among
    cases here : survey.frames[scope]? with
    | none => rw [here] at among; exact absurd among List.not_mem_nil
    | some frame => rw [here] at among; exact ⟨frame, List.mem_of_getElem? here, among⟩

namespace Registry

theorem isRebound_eq_false_iff {survey : Scope.Survey} {leading : List Address} {name : String} :
    isRebound survey leading name = false ↔ ∀ scope, ∀ origin ∈ (survey.own scope name).map (·.origin),
      ∃ address ∈ leading, origin = some address := by
  simp only [isRebound, List.any_eq_false, Scope.Survey.mem_bindingsOf_iff, forall_exists_index,
    List.forall_mem_map]
  constructor
  · intro kept scope binding mem
    have among := kept binding scope mem
    cases origin : binding.origin with
    | none => simp [origin] at among
    | some address => exact ⟨address, by simpa [origin] using among, rfl⟩
  · intro kept binding scope mem
    obtain ⟨address, among, origin⟩ := kept scope binding mem
    simp [origin, among]

section

variable {module : Module} {survey after : Scope.Survey} {names : List String} {lines : List Node}
  (traces : Scope.Traces names (module.placed [] lines.length) (Scope.Inserted module lines.length)
    survey after)
  (leading : (module.insertLeading lines).leadingImports.map (·.1) = module.leadingImports.map (·.1) ++
    (List.range lines.length).map fun k => [module.leadingEnd + 1 + k, 1])

include leading

theorem placed_mem_leading (wellFormed : module.wellFormed = true) (address : Address) :
    module.placed [] lines.length address ∈ (module.insertLeading lines).leadingImports.map (·.1) ↔
      address ∈ module.leadingImports.map (·.1) := by
  -- The new imports stand behind the leading ones, which keep their places.
  have still {located : Located} (mem : located ∈ module.leadingImports) :
      module.placed [] lines.length located.1 = located.1 := by
    obtain ⟨found, -, imports⟩ := Module.part?_of_mem_leadingImports mem
    obtain ⟨i, rest, place, early⟩ := Module.not_isBehindLeading_of_mem_leadingImports mem
    have is : located.2.isStatement = true := isStatement_of_isImport (by simp [isImport, imports])
    rw [Module.placed_of_isStatement wellFormed found is, Module.inject_nil, place, Module.shifted,
      if_pos early]
  rw [leading, List.mem_append]
  constructor
  · rintro (old | new)
    · obtain ⟨located, mem, same⟩ := List.mem_map.1 old
      rw [← Module.placed_inj ((still mem).trans same)]
      exact List.mem_map_of_mem mem
    · -- The parts of the module leave the place of the new imports free.
      obtain ⟨k, bound, same⟩ := List.mem_map.1 new
      have among := List.mem_range.1 bound
      cases address with
      | nil => exact absurd same (by simp [Module.placed, moved, Module.shifted])
      | cons i rest =>
        obtain ⟨below, place⟩ := @Module.exists_placed module [] lines.length i rest
        rw [place, List.cons.injEq] at same
        have head := same.1
        split at head <;> omega
  · intro mem
    obtain ⟨located, among, rfl⟩ := List.mem_map.1 mem
    rw [still among]
    exact .inl mem

include traces

theorem isRebound_old (wellFormed : module.wellFormed = true) {name : String} (other : name ∉ names) :
    isRebound after ((module.insertLeading lines).leadingImports.map (·.1)) name =
      isRebound survey (module.leadingImports.map (·.1)) name := by
  have same : isRebound after ((module.insertLeading lines).leadingImports.map (·.1)) name = false ↔
      isRebound survey (module.leadingImports.map (·.1)) name = false := by
    rw [isRebound_eq_false_iff, isRebound_eq_false_iff]
    refine forall_congr' fun scope => ?_
    rw [traces.old scope name other]
    simp only [List.forall_mem_map]
    refine forall_congr' fun binding => imp_congr_right fun mem => ?_
    cases binding.origin with
    | none => simp
    | some address =>
      have place := placed_mem_leading leading wellFormed address
      simpa using place
  exact Bool.eq_iff_iff.2 (by simpa using not_congr same)

theorem isRebound_new {name : String} (known : name ∈ names) :
    isRebound after ((module.insertLeading lines).leadingImports.map (·.1)) name = false := by
  rw [isRebound_eq_false_iff]
  intro scope origin mem
  obtain ⟨binding, among, rfl⟩ := List.mem_map.1 mem
  obtain ⟨k, bound, place⟩ := traces.new scope name known binding among
  refine ⟨_, ?_, place⟩
  rw [leading]
  exact List.mem_append_right _ (List.mem_map_of_mem (List.mem_range.2 bound))

end

/-- What a registry knows beyond a first one has names that were free there. They are spellings of the
names of the exports. -/
structure Coins (first registry : Registry) : Prop where
  taken : first.taken ⊆ registry.taken
  coined : ∀ entry ∈ registry.known, entry ∈ first.known ∨
    entry.2 ∉ first.taken ∧ ∃ n, entry.2 = Fresh.candidate entry.1.name n

theorem Coins.refl (registry : Registry) : Coins registry registry :=
  ⟨fun _ mem => mem, fun _ mem => .inl mem⟩

theorem Coins.ensure {first registry : Registry} (coins : Coins first registry) {wanted : Export}
    {ensured : Ensured} (met : registry.ensure wanted = .ok ensured) : Coins first ensured.registry := by
  rcases ensure_cases met with ⟨-, same, -⟩ | ⟨-, chosen, -, line, -, same⟩
  · rwa [same]
  · rw [same]
    constructor
    · exact fun name mem => List.mem_append_left _ (coins.taken mem)
    · intro entry mem
      rcases List.mem_append.1 mem with old | new
      · exact coins.coined entry old
      · obtain rfl := List.mem_singleton.1 new
        rw [chosen]
        refine .inr ⟨fun known => ?_, Fresh.choose_eq_candidate _ _⟩
        exact Fresh.choose_not_mem registry.taken wanted.name (coins.taken known)

namespace Session

theorem coins_run {first : Registry} {session : Session} (coins : Coins first session.registry)
    (requests : List Export) : Coins first (session.run (requests.map .ensure)).registry := by
  induction requests generalizing session with
  | nil => exact coins
  | cons wanted rest ih =>
    refine ih ?_
    cases met : session.registry.ensure wanted with
    | error fault => simpa [step, met] using coins
    | ok ensured => simpa [step, met] using coins.ensure met

theorem written_run (session : Session) (requests : List Export) :
    (session.run (requests.map .ensure)).written = session.written := by
  induction requests generalizing session with
  | nil => rfl
  | cons wanted rest ih =>
    refine (ih (session.step (.ensure wanted))).trans ?_
    rw [step]
    split <;> rfl

theorem granted_subset (session : Session) (requests : List Export) :
    session.granted (requests.map .ensure) ⊆ requests := by
  induction requests generalizing session with
  | nil => exact List.Subset.refl _
  | cons wanted rest ih =>
    intro asked mem
    rcases List.mem_append.1 mem with now | later
    · have here : asked = wanted := by
        rw [grant] at now
        split at now
        · exact List.mem_singleton.1 now
        · exact absurd now List.not_mem_nil
      exact List.mem_cons.2 (.inl here)
    · exact List.mem_cons_of_mem _ (ih _ later)

/-- What has been granted is known from then on. -/
theorem exists_name_of_granted {session : Session} {operations : List Operation} {wanted : Export}
    (mem : wanted ∈ session.granted operations) :
    ∃ name, (session.run operations).registry.known.lookup wanted = some name := by
  induction operations generalizing session with
  | nil => exact absurd mem List.not_mem_nil
  | cons operation rest ih =>
    rcases List.mem_append.1 mem with now | later
    · cases operation with
      | lookup other => exact absurd now List.not_mem_nil
      | apply module => exact absurd now List.not_mem_nil
      | ensure other =>
        rw [grant] at now
        split at now
        next ensured met =>
          obtain rfl := List.mem_singleton.1 now
          have here : (session.step (.ensure wanted)).registry.known.lookup wanted = some ensured.name := by
            simpa [step, met] using lookup_of_ensure met
          exact ⟨ensured.name, lookup_run here rest⟩
        next => exact absurd now List.not_mem_nil
    · exact ih later

end Session

theorem Fresh.eq_none_of_candidate {name : String} {n : Nat} (same : Fresh.candidate name n = "None") :
    name = "None" := by
  have other {text : String} (first : text.toList.head? = some '_') : text ≠ "None" := by
    rintro rfl
    exact absurd first (by decide)
  match n, same with
  | 0, same => exact same
  | 1, same => exact absurd same (other (by simp [Fresh.candidate]))
  | n + 2, same => exact absurd same (other (by simp [Fresh.candidate]))

theorem exists_paired {A B : Type} {R : A → B → Prop} {first : List A} {second : List B}
    (paired : List.Forall₂ R first second) {a : A} (mem : a ∈ first) : ∃ b ∈ second, R a b := by
  induction paired with
  | nil => exact absurd mem List.not_mem_nil
  | cons head _ ih =>
    rcases List.mem_cons.1 mem with rfl | later
    · exact ⟨_, List.mem_cons_self, head⟩
    · obtain ⟨b, among, related⟩ := ih later
      exact ⟨b, List.mem_cons_of_mem _ among, related⟩

/-- The imports of a session of requests, and what they are written for. -/
theorem exists_adds {module : Module} (wellFormed : module.wellFormed = true) (survey : Scope.Survey)
    (requests : List Export) (named : ∀ wanted ∈ requests, wanted.name ≠ "None") :
    let start : Session := ⟨(ofModule module survey).1, []⟩
    let session := start.run (requests.map .ensure)
    ∃ added, session.registry.known = (ofModule module survey).1.known ++ added ∧
      Adds module survey added ∧ Scope.Strange module.root (added.map (·.2)) ∧
      List.Forall₂ (fun entry line => importLine entry.1 entry.2 = .ok line) added
        session.registry.pending := by
  intro start session
  have begun : Session.Accounts start.registry [] [] start := ⟨by simp [start], rfl, .nil⟩
  obtain ⟨added, accounts⟩ := begun.run (requests.map .ensure)
  simp only [List.nil_append] at accounts
  have apart : session.registry.Apart :=
    Session.apart_run (ofModule_apart wellFormed survey) (requests.map .ensure)
  have coins : Coins start.registry session.registry := Session.coins_run (.refl _) requests
  have exports : (added.map (·.1)).Nodup := accounts.firsts ▸ Settings.distinct_nodup _
  have known : session.registry.known = (ofModule module survey).1.known ++ added := accounts.known
  have lines := accounts.lines
  have nothing : session.written = [] := Session.written_run start requests
  rw [show start.run (requests.map .ensure) = session from rfl, nothing, List.nil_append] at lines
  have mem {entry : Export × String} (among : entry ∈ added) : entry ∈ session.registry.known := by
    rw [known]
    exact List.mem_append_right _ among
  have coined {entry : Export × String} (among : entry ∈ added) :
      entry.2 ∉ module.root.identifiers ∧ ∃ n, entry.2 = Fresh.candidate entry.1.name n := by
    refine (coins.coined entry (mem among)).resolve_left fun old => ?_
    -- What was known at first is not lacking.
    exact absurd (List.lookup_eq_none_iff.1 (accounts.lacks among) entry old) (by simp)
  have spelled : ∀ entry ∈ added, isIdentifier entry.2 = true := by
    intro entry among
    obtain ⟨line, -, made⟩ := exists_paired lines among
    exact (importsAs_of_importLine made).2
  refine ⟨added, known, ⟨fun entry among => (coined among).1, ?_, fun entry => accounts.lacks, exports⟩,
    ⟨?_, ?_, ?_⟩, lines⟩
  · -- No two exports share a name, and no export is added twice.
    refine (exports.of_map _).map_on fun entry among other amid same => ?_
    exact List.inj_on_of_nodup_map exports among amid
      (apart.injective entry (mem among) other (mem amid) same)
  · simpa using fun name entry among => spelled (entry, name) among
  · intro none
    obtain ⟨entry, among, same⟩ := List.mem_map.1 none
    obtain ⟨-, n, candidate⟩ := coined among
    have asked : entry.1 ∈ Settings.distinct ((start.granted (requests.map .ensure)).filter start.registry.Lacks) :=
      accounts.firsts ▸ List.mem_map_of_mem among
    have requested := Session.granted_subset start requests
      (List.mem_of_mem_filter (Settings.mem_distinct.1 asked))
    exact named entry.1 requested (Fresh.eq_none_of_candidate (candidate.symm.trans same))
  · simpa using fun name entry among => (@coined (entry, name) among).1

/-- Written imports are found again. Where the hints of a module are silent, a registry of the module
that the requests have been written into knows all that the old one knows by the same names, and
nothing else, so that whatever was requested is reused. -/
theorem known_of_written {source : String} {module : Module} (parsed : Module.parse? source = some module)
    (silent : module.hintsAreSilent = true) (requests : List Export)
    (named : ∀ wanted ∈ requests, wanted.name ≠ "None") :
    ∃ survey after, Scope.survey module = .ok survey ∧
      let start : Session := ⟨(ofModule module survey).1, []⟩
      let registry := (start.run (requests.map .ensure)).registry
      let written := (registry.apply module).2
      Scope.survey written = .ok after ∧
        (∀ wanted, (ofModule written after).1.lookup wanted = registry.lookup wanted) ∧
        ∀ wanted ∈ start.granted (requests.map .ensure),
          (ofModule written after).1.ensure wanted =
            .ok ⟨registry.lookup wanted, (ofModule written after).1, []⟩ := by
  have wellFormed := Module.wellFormed_of_parse? parsed
  obtain ⟨-, survey, -, -, -, surveyed⟩ := Scope.exists_settled wellFormed silent
  obtain ⟨added, known, adds, strange, made⟩ := exists_adds wellFormed survey requests named
  obtain ⟨before, after, clock, first, second, -, traces⟩ :=
    @Scope.survey_grown _ wellFormed silent _ strange [] (by simp) _ fun line mem => by
      obtain ⟨entry, among, spelled⟩ := exists_paired made.flip mem
      obtain ⟨imports, valid⟩ := importsAs_of_importLine spelled
      exact ⟨entry.1, entry.2, imports, List.mem_map_of_mem among, valid⟩
  obtain rfl := Except.ok.inj (first.symm.trans surveyed)
  rw [Module.inject_nil] at second
  have leading := @leading_insertLeading module _ _ made
  have again : (ofModule (module.insertLeading _) after).1.known = _ :=
    (adds.known_eq wellFormed made
      (fun name spelled => isRebound_old traces leading wellFormed fun new => strange.apart name new spelled)
      fun entry mem => isRebound_new traces leading (List.mem_map_of_mem mem)).trans known.symm
  refine ⟨before, after, first, ?_⟩
  intro start registry written
  have same : written = module.insertLeading registry.pending := by
    simp only [written, apply_eq]
  rw [same]
  refine ⟨second, fun wanted => by rw [lookup, lookup, again], fun wanted mem => ?_⟩
  obtain ⟨name, found⟩ := Session.exists_name_of_granted mem
  rw [lookup_of_known found]
  exact ensure_of_lookup (again ▸ found)

/-- The import that the module has is not used again, since the name is bound again; a new one is
written, and found. -/
theorem known_of_written_rebound : ∃ module survey after,
    Module.parse? "from forms.base import library\nlibrary = None\n" = some module ∧
      module.hintsAreSilent = true ∧ Scope.survey module = .ok survey ∧
        let start : Session := ⟨(ofModule module survey).1, []⟩
        let registry := (start.run [.ensure ⟨"forms.base", "library"⟩]).registry
        registry.lookup ⟨"forms.base", "library"⟩ = "_library" ∧
          Scope.survey (registry.apply module).2 = .ok after ∧
            ∀ wanted, (ofModule (registry.apply module).2 after).1.lookup wanted = registry.lookup wanted := by
  have check : ((Module.parse? "from forms.base import library\nlibrary = None\n").bind fun module =>
      (Scope.survey module).toOption.map fun survey =>
        let start : Session := ⟨(ofModule module survey).1, []⟩
        module.hintsAreSilent &&
          (start.run [.ensure ⟨"forms.base", "library"⟩]).registry.lookup ⟨"forms.base", "library"⟩ ==
            "_library") = some true := by
    decide +kernel
  obtain ⟨module, parsed, check⟩ := Option.bind_eq_some_iff.1 check
  obtain ⟨survey, surveyed, check⟩ := Option.map_eq_some_iff.1 check
  simp only [Bool.and_eq_true, beq_iff_eq] at check
  obtain ⟨silent, coined⟩ := check
  obtain ⟨before, after, first, second, found, -⟩ :=
    known_of_written parsed silent [⟨"forms.base", "library"⟩] (by decide)
  obtain rfl := Except.ok.inj (first.symm.trans (eq_ok_of_toOption surveyed))
  exact ⟨module, before, after, parsed, silent, first, coined, second, found⟩

/-- A hint with a lambda whose parameter has the name of the new import. No `Name` spells it, so it is
free; the registry of the written module reads the hint, and takes the parameter for another binding. -/
theorem known_of_written_fails : ∃ module survey after,
    Module.parse? "x: \"Annotated[int, lambda bindings: bindings]\"\n" = some module ∧
      Scope.survey module = .ok survey ∧
        let wanted : Export := ⟨"formkit.vue", "bindings"⟩
        let registry := (Session.run ⟨(ofModule module survey).1, []⟩ [.ensure wanted]).registry
        Scope.survey (registry.apply module).2 = .ok after ∧
          (registry.apply module).2.source =
            "from formkit.vue import bindings\nx: \"Annotated[int, lambda bindings: bindings]\"\n" ∧
            registry.lookup wanted = "bindings" ∧
              (ofModule (registry.apply module).2 after).1.lookup wanted = "" := by
  have check : ((Module.parse? "x: \"Annotated[int, lambda bindings: bindings]\"\n").bind fun module =>
      (Scope.survey module).toOption.bind fun survey =>
        let wanted : Export := ⟨"formkit.vue", "bindings"⟩
        let registry := (Session.run ⟨(ofModule module survey).1, []⟩ [.ensure wanted]).registry
        (Scope.survey (registry.apply module).2).toOption.map fun after =>
          (registry.apply module).2.source ==
              "from formkit.vue import bindings\nx: \"Annotated[int, lambda bindings: bindings]\"\n" &&
            registry.lookup wanted == "bindings" &&
              (ofModule (registry.apply module).2 after).1.lookup wanted == "") = some true := by
    decide +kernel
  obtain ⟨module, parsed, check⟩ := Option.bind_eq_some_iff.1 check
  obtain ⟨survey, surveyed, check⟩ := Option.bind_eq_some_iff.1 check
  obtain ⟨after, again, check⟩ := Option.map_eq_some_iff.1 check
  simp only [Bool.and_eq_true, beq_iff_eq] at check
  exact ⟨module, survey, after, parsed, eq_ok_of_toOption surveyed, eq_ok_of_toOption again, check.1.1,
    check.1.2, check.2⟩

end Registry

end Graft
