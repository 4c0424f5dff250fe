import Graft.Proofs.Fresh
import Graft.Proofs.Naming
import Graft.Proofs.Scope.Names
import Graft.Proofs.Tree.Import
import Graft.Registry

set_option autoImplicit false

/-!
Requests to the registry. A request for what can be imported is always met: by the name of a known
import, or by a new import under a name that is free.
-/
namespace Graft

/-- What an import of an export under a local name says. -/
def Export.clause (wanted : Export) (bound : String) : Clause :=
  ⟨wanted.source, [(wanted.name, if bound = wanted.name then none else some bound)]⟩

theorem Export.boundNames_clause (wanted : Export) {bound : String} (valid : isIdentifier bound = true) :
    (wanted.clause bound).boundNames = [bound] := by
  unfold clause Clause.boundNames
  split
  next same => simp [← same, Scope.prefixes_of_isIdentifier valid]
  next => simp

/-- What a new import statement is. -/
structure ImportsAs (line : Node) (wanted : Export) (bound : String) : Prop where
  wellFormed : line.wellFormed = true
  shape : ∃ parts ending, line = .plain .line [.absent, .plain .importFrom parts, .glue ending] ∧
    (Node.plain .importFrom parts).clause? = some (wanted.clause bound)

/-- What the binder of a new import is. -/
structure BindsAs (binder : Node) (wanted : Export) (bound : String) : Prop where
  part : binder.Part
  shape : binder.isAbsent = true ∨ binder.isNameBinder = true
  boundName? : binder.boundName? = if bound = wanted.name then none else some bound

theorem importBinder_eq_ok (wanted : Export) {bound : String} (valid : isIdentifier bound = true) :
    ∃ binder, importBinder wanted bound = .ok binder ∧ BindsAs binder wanted bound := by
  unfold importBinder
  split
  next same => exact ⟨.absent, rfl, .absent, .inl rfl, by rw [if_pos same]; rfl⟩
  next other =>
    rw [Node.ofIdentifier_eq_ok valid]
    exact ⟨_, rfl, .plain rfl (by simp), .inr rfl, by rw [if_neg other]; rfl⟩

theorem isIdentifier_of_importBinder {wanted : Export} (name : isIdentifier wanted.name = true) {bound : String}
    {binder : Node} (made : importBinder wanted bound = .ok binder) : isIdentifier bound = true := by
  unfold importBinder at made
  split at made
  next same => exact same ▸ name
  next =>
    obtain ⟨node, spelled, -⟩ := map_eq_ok.1 made
    exact Node.isIdentifier_of_ofIdentifier spelled

/-- The statement that imports a name from a source. -/
def importOf (source name binder : Node) : Node :=
  .plain .line [.absent, .plain .importFrom [.glue [.text "from "], .absent, source, .glue [.text " import "],
    .plain .aliases [.plain .alias [name, binder, .absent]], .absent], .glue [.lineEnd none]]

/-- A statement is made of three parts, each of which can be spelled. -/
theorem exists_parts_of_importLine {wanted : Export} {bound : String} {line : Node}
    (made : importLine wanted bound = .ok line) :
    ∃ source binder, ∃ valid : isIdentifier wanted.name = true, source.Spells wanted.source ∧
      isIdentifier bound = true ∧ importBinder wanted bound = .ok binder ∧ BindsAs binder wanted bound ∧
        line = importOf source (.name {} ⟨wanted.name, valid⟩) binder := by
  obtain ⟨source, dotted, made⟩ := bind_eq_ok.1 made
  obtain ⟨name, named, made⟩ := bind_eq_ok.1 made
  obtain ⟨binder, bind, made⟩ := bind_eq_ok.1 made
  obtain ⟨_, same, spells⟩ := Node.ofDotted_spells (Node.isIdentifier_of_ofSegments dotted)
  obtain rfl := Except.ok.inj (dotted.symm.trans same)
  have exported := Node.isIdentifier_of_ofIdentifier named
  obtain rfl := Except.ok.inj (named.symm.trans (Node.ofIdentifier_eq_ok exported))
  have valid := isIdentifier_of_importBinder exported bind
  obtain ⟨_, same, binds⟩ := importBinder_eq_ok wanted valid
  obtain rfl := Except.ok.inj (bind.symm.trans same)
  exact ⟨source, binder, exported, spells, valid, bind, binds, (Except.ok.inj made).symm⟩

theorem importsAs_of_importLine {wanted : Export} {bound : String} {line : Node}
    (made : importLine wanted bound = .ok line) :
    ImportsAs line wanted bound ∧ isIdentifier bound = true := by
  obtain ⟨source, binder, name, spells, valid, -, binds, rfl⟩ := exists_parts_of_importLine made
  have glue (leaves : List Leaf) : (Node.glue leaves).isA .glue = true := rfl
  have absent : Node.absent.isA .glue = true := rfl
  have item : (Node.plain .alias [.name {} ⟨wanted.name, name⟩, binder, .absent]).Part := by
    refine ⟨(Node.wellFormed_branch _ _ _).2 ⟨?_, by simp [binds.part.wellFormed, Node.Part.wellFormed]⟩,
      rfl, rfl, Node.isTidy_branch (by decide) {} (by simp [binds.part.isTidy, Node.Part.isTidy])⟩
    simp [Shape.fits, Shape.hasRoles, binds.part.isStatement, Node.Part.isStatement, Node.isDotted, binds.shape,
      absent]
  have aliases : (Node.plain .aliases
      [.plain .alias [.name {} ⟨wanted.name, name⟩, binder, .absent]]).Part := by
    refine ⟨(Node.wellFormed_branch _ _ _).2 ⟨?_, by simpa using item.wellFormed⟩, rfl, rfl,
      Node.isTidy_branch (by decide) {} (by simpa using item.isTidy)⟩
    have apart := @Node.Part.apart [_] (by simpa using item)
    rw [Shape.fits, apart]
    rfl
  refine ⟨⟨Node.wellFormed_free rfl ?_, _, _, rfl, ?_⟩, valid⟩
  next =>
    have group : (Node.plain .aliases
        [.plain .alias [.name {} ⟨wanted.name, name⟩, binder, .absent]]).isA .aliases = true := rfl
    have statement : (Node.plain .importFrom [.glue [.text "from "], .absent, source,
        .glue [.text " import "], .plain .aliases
          [.plain .alias [.name {} ⟨wanted.name, name⟩, binder, .absent]],
        .absent]).wellFormed = true := by
      refine (Node.wellFormed_branch _ _ _).2 ⟨?_, ?_⟩
      next =>
        simp [Shape.fits, Shape.hasRoles, Kind.isStatement, glue, absent, spells.isDotted, group]
      next => simp [spells.part.wellFormed, aliases.wellFormed, Node.Part.wellFormed]
    simp [statement, Node.Part.wellFormed]
  next =>
    have none : Node.absent.dotCount = 0 := rfl
    simp [Node.plain, Node.clause?, none, spells.fullName, Node.children, Node.aliasNames?,
      Node.fullName, binds.boundName?, Export.clause]

/-- Whatever is spelled by identifiers can be imported, keywords among them. -/
theorem importLine_of_identifiers {wanted : Export}
    (segments : ∀ segment ∈ Dotted.segments wanted.source, isIdentifier segment = true)
    (name : isIdentifier wanted.name = true) {bound : String} (valid : isIdentifier bound = true) :
    ∃ line, importLine wanted bound = .ok line ∧ ImportsAs line wanted bound := by
  obtain ⟨source, spelled, -⟩ := Node.ofDotted_spells segments
  obtain ⟨binder, bind, -⟩ := importBinder_eq_ok wanted valid
  have made : importLine wanted bound = .ok (importOf source (.name {} ⟨wanted.name, name⟩) binder) := by
    rw [importLine, spelled, Node.ofIdentifier_eq_ok name, bind]
    rfl
  exact ⟨_, made, (importsAs_of_importLine made).1⟩

theorem importLine_eq_ok {wanted : Export} (importable : wanted.Importable) {bound : String}
    (valid : isIdentifier bound = true) :
    ∃ line, importLine wanted bound = .ok line ∧ ImportsAs line wanted bound :=
  importLine_of_identifiers importable.source importable.name valid

namespace Registry

/-- The registry after some requests: the new imports wait, each under a name that was free. -/
structure Extends (before after : Registry) (added : List (Export × String)) : Prop where
  known : after.known = before.known ++ added
  taken : after.taken = before.taken ++ added.map (·.2)
  pending : after.pending.map .ok =
    before.pending.map .ok ++ added.map fun entry => importLine entry.1 entry.2
  importable : ∀ entry ∈ added, entry.1.Importable ∧ isIdentifier entry.2 = true
  words : ∀ entry ∈ added, isKeyword entry.2 = false
  free : ∀ entry ∈ added, entry.2 ∉ before.taken
  distinct : (added.map (·.2)).Nodup

theorem Extends.refl (registry : Registry) : registry.Extends registry [] := by
  constructor <;> simp

theorem Extends.trans {first second third : Registry} {before after : List (Export × String)}
    (head : first.Extends second before) (tail : second.Extends third after) :
    first.Extends third (before ++ after) where
  known := by rw [tail.known, head.known, List.append_assoc]
  taken := by rw [tail.taken, head.taken, List.map_append, List.append_assoc]
  pending := by rw [tail.pending, head.pending, List.map_append, List.append_assoc]
  importable entry mem := (List.mem_append.1 mem).elim (head.importable entry) (tail.importable entry)
  words entry mem := (List.mem_append.1 mem).elim (head.words entry) (tail.words entry)
  free entry mem := by
    refine (List.mem_append.1 mem).elim (head.free entry) fun mem taken => tail.free entry mem ?_
    rw [head.taken]
    exact List.mem_append_left _ taken
  distinct := by
    rw [List.map_append, List.nodup_append]
    refine ⟨head.distinct, tail.distinct, fun name early other late same => ?_⟩
    obtain ⟨entry, mem, rfl⟩ := List.mem_map.1 late
    refine tail.free entry mem ?_
    rw [head.taken]
    exact List.mem_append_right _ (same ▸ early)

/-- Every local name in the registry is an identifier. -/
def Sound (registry : Registry) : Prop := ∀ entry ∈ registry.known, isIdentifier entry.2 = true

theorem Extends.sound {before after : Registry} {added : List (Export × String)}
    (extension : before.Extends after added) (sound : before.Sound) : after.Sound := by
  intro entry mem
  rw [extension.known] at mem
  exact (List.mem_append.1 mem).elim (sound entry) fun mem => (extension.importable entry mem).2

theorem Extends.lookup {before after : Registry} {added : List (Export × String)}
    (extension : before.Extends after added) {wanted : Export} {name : String}
    (known : before.known.lookup wanted = some name) : after.known.lookup wanted = some name := by
  rw [extension.known, List.lookup_append, known]
  rfl

theorem ensure_eq_ok {registry : Registry} (sound : registry.Sound) {wanted : Export}
    (importable : wanted.Importable) :
    ∃ ensured added, registry.ensure wanted = .ok ensured ∧ isIdentifier ensured.name = true ∧
      ensured.registry.known.lookup wanted = some ensured.name ∧
        registry.Extends ensured.registry added := by
  unfold ensure
  split
  next name known =>
    obtain ⟨before, after, place, -⟩ := List.lookup_eq_some_iff.1 known
    have mem : (wanted, name) ∈ registry.known := by rw [place]; simp
    exact ⟨⟨name, registry, []⟩, [], rfl, sound (wanted, name) mem, known, .refl registry⟩
  next unknown =>
    have valid := Fresh.isIdentifier_choose registry.taken importable.name
    obtain ⟨line, made, -⟩ := importLine_eq_ok importable valid
    refine ⟨⟨_, _, _⟩, [(wanted, Fresh.choose registry.taken wanted.name)], by simp only [made]; rfl,
      valid, ?_, ?_⟩
    next =>
      rw [List.lookup_append, unknown, List.lookup_cons_self]
      rfl
    constructor <;>
      simp [made, importable, valid, Fresh.choose_not_mem, Fresh.isKeyword_choose _ importable.word]

/-- An application writes what waits, after which nothing does. -/
theorem apply_eq (registry : Registry) (module : Module) :
    registry.apply module = ({ registry with pending := [] }, module.insertLeading registry.pending) := by
  unfold apply hasPending
  split
  next => rfl
  next idle =>
    have none : registry.pending = [] := by simpa using idle
    obtain ⟨known, taken, pending⟩ := registry
    simp_all [Module.insertLeading]

theorem mem_learn {known : List (Export × String)} {candidate entry : Export × String}
    (mem : entry ∈ learn known candidate) : entry ∈ known ∨ entry = candidate := by
  unfold learn at mem
  split at mem
  next => exact .inl mem
  next => simpa using mem

theorem mem_foldl_learn {known candidates : List (Export × String)} {entry : Export × String}
    (mem : entry ∈ candidates.foldl learn known) : entry ∈ known ∨ entry ∈ candidates := by
  induction candidates generalizing known with
  | nil => exact .inl mem
  | cons candidate rest ih =>
    obtain mem | mem := ih mem
    next => exact (mem_learn mem).imp_right (by simp +contextual)
    next => exact .inr (by simp [mem])

theorem mem_known {module : Module} {survey : Scope.Survey} {entry : Export × String}
    (mem : entry ∈ (ofModule module survey).1.known) :
    entry ∈ candidates module ∧ isSingle (candidates module) entry = true ∧
      isRebound survey (module.leadingImports.map (·.1)) entry.2 = false := by
  have found := (mem_foldl_learn mem).resolve_left (by simp)
  simp only [List.mem_filter, Bool.not_eq_true'] at found
  exact ⟨found.1.1, found.1.2, found.2⟩

theorem ofModule_sound {module : Module} (wellFormed : module.wellFormed = true)
    (survey : Scope.Survey) : (ofModule module survey).1.Sound := by
  intro entry mem
  obtain ⟨located, leading, among⟩ := List.mem_flatMap.1 (mem_known mem).1
  exact (Node.exports_isIdentifier
    (Module.wellFormed_of_mem_leadingImports wellFormed leading) among).2

end Registry

end Graft
