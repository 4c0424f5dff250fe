import Graft.Proofs.Registry.Requests
import Mathlib.Data.List.Forall2
import Mathlib.Data.List.Induction

set_option autoImplicit false

/-!
A registry in use: requests, lookups and applications in any order. Its known exports, its taken names
and its queue stay in step with the requests that were met.
-/
namespace Graft

theorem Node.mem_identifiers_of_exports {root node : Node} (inside : node ∈ root.nodes)
    (wellFormed : node.wellFormed = true) {entry : Export × String} (mem : entry ∈ node.exports) :
    entry.2 ∈ root.identifiers := by
  unfold exports at mem
  split at mem
  next parens word dots source between aliases closing =>
    split at mem
    next =>
      obtain ⟨names, found, rfl⟩ := List.mem_map.1 mem
      obtain ⟨item, among, named⟩ := List.mem_filterMap.1 found
      have group := mem_nodes_of_child inside (show aliases ∈ _ by simp [children])
      have here := mem_nodes_of_child group among
      have spelled := isNameAlias_of_mem wellFormed among
      unfold aliasNames? at named
      split at named
      next imported binder last =>
        obtain rfl := Option.some.inj named
        -- The local name is that of the binder, or else that of the export.
        cases bound : binder.boundName? with
        | none =>
          cases imported with
          | name around id =>
            exact mem_identifiers (mem_nodes_of_child here (show name around id ∈ _ by simp [children]))
          | leaf l => simp [isNameAlias] at spelled
          | branch kind around nodes => simp [isNameAlias] at spelled
        | some name =>
          have inner := mem_nodes_of_child here (show binder ∈ _ by simp [children])
          unfold boundName? at bound
          split at bound
          next around id =>
            obtain rfl := Option.some.inj bound
            exact mem_identifiers (mem_nodes_of_child inner (show name around id ∈ _ by simp [children]))
          next => exact absurd bound (by simp)
      next => exact absurd named (by simp)
    next => exact absurd mem (by simp)
  next => exact absurd mem (by simp)

theorem Settings.distinct_append {A : Type} [DecidableEq A] (items : List A) (item : A) :
    distinct (items ++ [item]) = addNew (distinct items) item := by
  simp [distinct]

theorem Settings.mem_distinct {A : Type} [DecidableEq A] {items : List A} {item : A} :
    item ∈ distinct items ↔ item ∈ items := by
  induction items using List.reverseRecOn with
  | nil => simp [distinct]
  | append_singleton items last ih =>
    rw [distinct_append, addNew]
    split
    next there => grind
    next => simp [ih]

namespace Registry

/-- What a host may ask of a registry. -/
inductive Operation where
  | ensure (wanted : Export)
  | lookup (wanted : Export)
  | apply (module : Module)

/-- A registry in use, and the statements that it has written so far. -/
structure Session where
  registry : Registry
  written : List Node

namespace Session

def step (session : Session) : Operation → Session
  | .ensure wanted =>
    match session.registry.ensure wanted with
    | .ok ensured => { session with registry := ensured.registry }
    | .error _ => session
  | .lookup _ => session
  | .apply module =>
    { registry := (session.registry.apply module).1
      written := session.written ++ session.registry.pending }

def run (session : Session) (operations : List Operation) : Session :=
  operations.foldl step session

/-- The export that an operation requests, if the request is met. -/
def grant (session : Session) : Operation → List Export
  | .ensure wanted =>
    match session.registry.ensure wanted with
    | .ok _ => [wanted]
    | .error _ => []
  | .lookup _ => []
  | .apply _ => []

/-- The exports whose requests are met over a run, in order. -/
def granted (session : Session) : List Operation → List Export
  | [] => []
  | operation :: rest => session.grant operation ++ (session.step operation).granted rest

end Session

/-- What the requests that are met keep, and what does not depend on the queue. -/
structure Invariant (Keeps : Registry → Prop) : Prop where
  ensure : ∀ {registry wanted ensured}, Keeps registry → registry.ensure wanted = .ok ensured →
    Keeps ensured.registry
  emptied : ∀ {registry}, Keeps registry → Keeps { registry with pending := [] }

namespace Invariant

variable {Keeps : Registry → Prop}

theorem step (invariant : Invariant Keeps) {session : Session} (here : Keeps session.registry)
    (operation : Operation) : Keeps (session.step operation).registry := by
  cases operation with
  | lookup wanted => exact here
  | ensure wanted =>
    cases met : session.registry.ensure wanted with
    | error fault => simpa [Session.step, met] using here
    | ok ensured => simpa [Session.step, met] using invariant.ensure here met
  | apply module =>
    rw [Session.step, apply_eq]
    exact invariant.emptied here

theorem run (invariant : Invariant Keeps) {session : Session} (here : Keeps session.registry)
    (operations : List Operation) : Keeps (session.run operations).registry := by
  induction operations generalizing session with
  | nil => exact here
  | cons operation rest ih => exact ih (invariant.step here operation)

end Invariant

def Lacks (registry : Registry) (wanted : Export) : Bool :=
  (registry.known.lookup wanted).isNone

/-- A request that is met either reads a name that is known, or makes one and queues its import. -/
theorem ensure_cases {registry : Registry} {wanted : Export} {ensured : Ensured}
    (met : registry.ensure wanted = .ok ensured) :
    (registry.known.lookup wanted = some ensured.name ∧ ensured.registry = registry ∧
      ensured.notices = []) ∨
    (registry.known.lookup wanted = none ∧
      ensured.name = Fresh.choose registry.taken wanted.name ∧
      ensured.notices = [queuedNotice wanted ensured.name] ∧
      ∃ line, importLine wanted ensured.name = .ok line ∧
        ensured.registry = ⟨registry.known ++ [(wanted, ensured.name)],
          registry.taken ++ [ensured.name], registry.pending ++ [line]⟩) := by
  unfold ensure at met
  split at met
  next name known =>
    obtain rfl := Except.ok.inj met
    exact .inl ⟨known, rfl, rfl⟩
  next unknown =>
    obtain ⟨line, made, met⟩ := bind_eq_ok.1 met
    obtain rfl := Except.ok.inj met
    exact .inr ⟨unknown, rfl, rfl, line, made, rfl⟩

theorem lookup_of_ensure {registry : Registry} {wanted : Export} {ensured : Ensured}
    (met : registry.ensure wanted = .ok ensured) :
    ensured.registry.known.lookup wanted = some ensured.name := by
  obtain ⟨known, same, -⟩ | ⟨unknown, -, -, line, -, same⟩ := ensure_cases met
  next => rw [same, known]
  next => rw [same, List.lookup_append, unknown, List.lookup_cons_self, Option.none_or]

theorem ensure_of_lookup {registry : Registry} {wanted : Export} {name : String}
    (known : registry.known.lookup wanted = some name) :
    registry.ensure wanted = .ok ⟨name, registry, []⟩ := by
  rw [ensure, known]

theorem lookup_of_known {registry : Registry} {wanted : Export} {name : String}
    (known : registry.known.lookup wanted = some name) : registry.lookup wanted = name := by
  rw [lookup, known, Option.getD_some]

/-- Known exports have names of their own, which are all taken. -/
structure Apart (registry : Registry) : Prop where
  taken : ∀ entry ∈ registry.known, entry.2 ∈ registry.taken
  injective : ∀ entry ∈ registry.known, ∀ other ∈ registry.known, entry.2 = other.2 → entry.1 = other.1

theorem Apart.ensure {registry : Registry} (apart : registry.Apart) {wanted : Export}
    {ensured : Ensured} (met : registry.ensure wanted = .ok ensured) : ensured.registry.Apart := by
  obtain ⟨-, same, -⟩ | ⟨-, chosen, -, line, -, same⟩ := ensure_cases met
  next => rwa [same]
  next =>
    -- The new name is not among the taken ones, so it is nobody's else.
    have fresh : ∀ entry ∈ registry.known, entry.2 ≠ ensured.name := by
      rintro entry mem alike
      exact Fresh.choose_not_mem registry.taken wanted.name (chosen ▸ alike ▸ apart.taken entry mem)
    rw [same]
    constructor
    next =>
      intro entry mem
      obtain mem | mem := List.mem_append.1 mem
      next => exact List.mem_append_left _ (apart.taken entry mem)
      next => simp [List.mem_singleton.1 mem]
    next =>
      intro entry mem other among alike
      obtain mem | mem := List.mem_append.1 mem <;> obtain among | among := List.mem_append.1 among
      next => exact apart.injective entry mem other among alike
      next =>
        obtain rfl := List.mem_singleton.1 among
        exact absurd alike (fresh entry mem)
      next =>
        obtain rfl := List.mem_singleton.1 mem
        exact absurd alike.symm (fresh other among)
      next => rw [List.mem_singleton.1 mem, List.mem_singleton.1 among]

theorem ofModule_apart {module : Module} (wellFormed : module.wellFormed = true)
    (survey : Scope.Survey) : (ofModule module survey).1.Apart where
  taken entry mem := by
    -- All that the module spells is taken, so the names of its own imports are.
    obtain ⟨located, leading, exported⟩ := List.mem_flatMap.1 (mem_known mem).1
    have found := (Module.part?_of_mem_leadingImports leading).1
    exact Node.mem_identifiers_of_exports (Node.mem_nodes.2 ⟨_, found⟩)
      (Module.wellFormed_of_mem_leadingImports wellFormed leading) exported
  injective entry mem other among alike := by
    -- A name is used again only if every leading import of it is one of the same export.
    have single := List.all_eq_true.1 (mem_known mem).2.1 other (mem_known among).1
    simp only [alike, bne_self_eq_false, Bool.false_or, beq_iff_eq] at single
    exact single.symm

theorem Apart.lookup {registry : Registry} (apart : registry.Apart) {wanted other : Export}
    {name : String} (known : registry.known.lookup wanted = some name)
    (among : registry.known.lookup other = some name) : wanted = other := by
  have mem {asked : Export} (found : registry.known.lookup asked = some name) :
      (asked, name) ∈ registry.known := by
    obtain ⟨before, after, place, -⟩ := List.lookup_eq_some_iff.1 found
    simp [place]
  exact apart.injective _ (mem known) _ (mem among) rfl

namespace Session

variable {first : Registry} {asked : List Export} {added : List (Export × String)} {session : Session}

theorem apart_run (apart : session.registry.Apart) (operations : List Operation) :
    (session.run operations).registry.Apart :=
  Invariant.run ⟨fun apart met => apart.ensure met, fun apart => ⟨apart.taken, apart.injective⟩⟩
    apart operations

theorem lookup_run {wanted : Export} {name : String}
    (known : session.registry.known.lookup wanted = some name) (operations : List Operation) :
    (session.run operations).registry.known.lookup wanted = some name := by
  have kept : Invariant fun registry => registry.known.lookup wanted = some name := by
    refine ⟨fun known met => ?_, id⟩
    obtain ⟨-, same, -⟩ | ⟨-, -, -, line, -, same⟩ := ensure_cases met
    next => rw [same, known]
    next => rw [same, List.lookup_append, known, Option.some_or]
  exact kept.run known operations

/-- What a session has come to since its registry was `first`: `added` are the exports that were
requested first, with their names, and there is one import for each of them. -/
structure Accounts (first : Registry) (asked : List Export) (added : List (Export × String))
    (session : Session) : Prop where
  known : session.registry.known = first.known ++ added
  firsts : added.map (·.1) = Settings.distinct (asked.filter first.Lacks)
  lines : List.Forall₂ (fun entry line => importLine entry.1 entry.2 = .ok line) added
    (session.written ++ session.registry.pending)

theorem Accounts.lacks (accounts : Accounts first asked added session) {entry : Export × String}
    (mem : entry ∈ added) : first.known.lookup entry.1 = none := by
  have among : entry.1 ∈ Settings.distinct (asked.filter first.Lacks) :=
    accounts.firsts ▸ List.mem_map_of_mem mem
  simpa [Lacks] using (List.mem_filter.1 (Settings.mem_distinct.1 among)).2

theorem Accounts.lookup (accounts : Accounts first asked added session) {entry : Export × String}
    (mem : entry ∈ added) : session.registry.known.lookup entry.1 = some entry.2 := by
  rw [accounts.known, List.lookup_append, accounts.lacks mem, Option.none_or]
  -- No two entries are for one export, so the entry that is found is this one.
  have nodup : (added.map (·.1)).Nodup := accounts.firsts ▸ Settings.distinct_nodup _
  clear accounts
  induction added with
  | nil => exact absurd mem (by simp)
  | cons head rest ih =>
    simp only [List.map_cons, List.nodup_cons] at nodup
    obtain rfl | mem := List.mem_cons.1 mem
    next => exact List.lookup_cons_self
    next =>
      have differs : entry.1 ≠ head.1 := fun same => nodup.1 (same ▸ List.mem_map_of_mem mem)
      rw [List.lookup_cons, beq_false_of_ne differs]
      exact ih mem nodup.2

theorem Accounts.ensure (accounts : Accounts first asked added session) {wanted : Export}
    {ensured : Ensured} (met : session.registry.ensure wanted = .ok ensured) :
    ∃ more, Accounts first (asked ++ [wanted]) (added ++ more)
      { session with registry := ensured.registry } := by
  have known := accounts.known
  obtain ⟨found, same, -⟩ | ⟨missing, -, -, line, made, same⟩ := ensure_cases met
  next =>
    refine ⟨[], by simpa [same] using known, ?_, by simpa [same] using accounts.lines⟩
    rw [List.append_nil, accounts.firsts, List.filter_append]
    -- A known export was known at first, or is among those that were added.
    by_cases old : first.Lacks wanted = true
    next =>
      have again : wanted ∈ Settings.distinct (asked.filter first.Lacks) := by
        rw [known, List.lookup_append, Option.isNone_iff_eq_none.1 old, Option.none_or] at found
        obtain ⟨before, after, place, -⟩ := List.lookup_eq_some_iff.1 found
        rw [← accounts.firsts, place]
        simp
      simp [old, Settings.distinct_append, Settings.addNew, again]
    next => simp [old]
  next =>
    -- What is not known now was lacking at first, and has not been asked for since.
    rw [known, List.lookup_append, Option.or_eq_none_iff] at missing
    have new : wanted ∉ Settings.distinct (asked.filter first.Lacks) := by
      rw [← accounts.firsts]
      intro mem
      obtain ⟨entry, among, rfl⟩ := List.mem_map.1 mem
      exact absurd (List.lookup_eq_none_iff.1 missing.2 entry among) (by simp)
    refine ⟨[(wanted, ensured.name)], ?_, ?_, ?_⟩
    next => simp [same, known]
    next =>
      have lacks : first.Lacks wanted = true := by simp [Lacks, missing.1]
      rw [List.map_append, accounts.firsts, List.filter_append]
      simp [lacks, Settings.distinct_append, Settings.addNew, new]
    next =>
      simp only [same, ← List.append_assoc]
      exact List.rel_append accounts.lines (.cons made .nil)

theorem Accounts.step (accounts : Accounts first asked added session) (operation : Operation) :
    ∃ more, Accounts first (asked ++ session.grant operation) (added ++ more)
      (session.step operation) := by
  cases operation with
  | lookup wanted => exact ⟨[], by simpa [grant, Session.step] using accounts⟩
  | ensure wanted =>
    cases met : session.registry.ensure wanted with
    | error fault => exact ⟨[], by simpa [grant, Session.step, met] using accounts⟩
    | ok ensured => simpa [grant, Session.step, met] using accounts.ensure met
  | apply module =>
    -- The queue moves to what is written, as it is.
    refine ⟨[], ?_⟩
    rw [grant, List.append_nil, List.append_nil, Session.step, apply_eq]
    exact ⟨accounts.known, accounts.firsts, by simpa using accounts.lines⟩

theorem Accounts.run (accounts : Accounts first asked added session) (operations : List Operation) :
    ∃ more, Accounts first (asked ++ session.granted operations) (added ++ more)
      (session.run operations) := by
  induction operations generalizing session asked added with
  | nil => exact ⟨[], by simpa [granted, Session.run] using accounts⟩
  | cons operation rest ih =>
    -- What the first operation adds stands before what the others add.
    obtain ⟨early, here⟩ := accounts.step operation
    obtain ⟨late, there⟩ := ih here
    exact ⟨early ++ late, by simpa [granted, Session.run] using there⟩

end Session

/-- The registry of a module over any use of it. A name that a request gave is the name of its export
from then on, no two exports share a name, and there is one import for every export that was requested
anew, in the order of the first requests. -/
theorem session_accounts {module : Module} (wellFormed : module.wellFormed = true)
    (survey : Scope.Survey) (operations : List Operation) :
    let first := (ofModule module survey).1
    let start : Session := ⟨first, []⟩
    let session := start.run operations
    (∀ early late wanted ensured, operations = early ++ .ensure wanted :: late →
      (start.run early).registry.ensure wanted = .ok ensured →
        session.registry.lookup wanted = ensured.name ∧
          session.registry.ensure wanted = .ok ⟨ensured.name, session.registry, []⟩) ∧
    (∀ wanted other name, session.registry.known.lookup wanted = some name →
      session.registry.known.lookup other = some name → wanted = other) ∧
    List.Forall₂ (fun wanted line => ImportsAs line wanted (session.registry.lookup wanted))
      (Settings.distinct ((start.granted operations).filter first.Lacks))
      (session.written ++ session.registry.pending) ∧
    ∀ target, (session.registry.apply target).1.hasPending = false ∧
      (session.registry.apply target).2 = target.insertLeading session.registry.pending := by
  intro first start session
  refine ⟨?_, ?_, ?_, fun target => by simp [apply_eq, hasPending]⟩
  next =>
    rintro early late wanted ensured rfl met
    -- The name is there right after its request, and whatever comes later keeps it.
    have here : ((start.run early).step (.ensure wanted)).registry.known.lookup wanted =
        some ensured.name := by
      simpa [Session.step, met] using lookup_of_ensure met
    have known := Session.lookup_run here late
    have same : session = ((start.run early).step (.ensure wanted)).run late := by
      simp [session, Session.run]
    rw [same]
    exact ⟨lookup_of_known known, ensure_of_lookup known⟩
  next =>
    have apart : session.registry.Apart := Session.apart_run (ofModule_apart wellFormed survey) operations
    exact fun wanted other name => apart.lookup
  next =>
    have begun : Session.Accounts first [] [] start := ⟨by simp [start], rfl, .nil⟩
    obtain ⟨added, accounts⟩ := begun.run operations
    simp only [List.nil_append] at accounts
    rw [← accounts.firsts, List.forall₂_map_left_iff]
    have named : ∀ entry ∈ added, session.registry.lookup entry.1 = entry.2 :=
      fun entry mem => lookup_of_known (accounts.lookup mem)
    refine ((List.forall₂_and_left _ _).2 ⟨named, accounts.lines⟩).imp fun entry line made => ?_
    rw [made.1]
    exact (importsAs_of_importLine made.2).1

/-- Two packages export one name. The module imports it from the first; the second is imported once
under another name, however often it is requested and whenever the queue is written. -/
theorem session_of_namesakes : ∃ module survey,
    Module.parse? "from forms.base import library\n" = some module ∧
      Scope.survey module = .ok survey ∧
        let namesake : Export := ⟨"forms.extra", "library"⟩
        let start : Session := ⟨(ofModule module survey).1, []⟩
        let session := start.run [.ensure ⟨"forms.base", "library"⟩, .ensure namesake, .apply module,
          .ensure namesake]
        session.registry.lookup ⟨"forms.base", "library"⟩ = "library" ∧
          session.registry.lookup namesake = "_library" ∧
          List.Forall₂ (fun wanted line => ImportsAs line wanted (session.registry.lookup wanted))
            [namesake] (session.written ++ session.registry.pending) := by
  have check : ((Module.parse? "from forms.base import library\n").bind fun module =>
      (Scope.survey module).toOption.map fun survey =>
        let first := (ofModule module survey).1
        let start : Session := ⟨first, []⟩
        let operations : List Operation := [.ensure ⟨"forms.base", "library"⟩,
          .ensure ⟨"forms.extra", "library"⟩, .apply module, .ensure ⟨"forms.extra", "library"⟩]
        (start.run operations).registry.lookup ⟨"forms.base", "library"⟩ == "library" &&
          (start.run operations).registry.lookup ⟨"forms.extra", "library"⟩ == "_library" &&
            Settings.distinct ((start.granted operations).filter first.Lacks) ==
              [⟨"forms.extra", "library"⟩]) = some true := by
    decide +kernel
  obtain ⟨module, parsed, check⟩ := Option.bind_eq_some_iff.1 check
  cases surveyed : Scope.survey module with
  | error fault => rw [surveyed] at check; exact absurd check (by simp [Except.toOption])
  | ok survey =>
    simp only [surveyed, Except.toOption, Option.map_some, Option.some.injEq, Bool.and_eq_true,
      beq_iff_eq] at check
    obtain ⟨⟨old, new⟩, firsts⟩ := check
    obtain ⟨-, -, lines, -⟩ := session_accounts (Module.wellFormed_of_parse? parsed) survey
      [.ensure ⟨"forms.base", "library"⟩, .ensure ⟨"forms.extra", "library"⟩, .apply module,
        .ensure ⟨"forms.extra", "library"⟩]
    rw [firsts] at lines
    exact ⟨module, survey, parsed, surveyed, old, new, lines⟩

end Registry

end Graft
