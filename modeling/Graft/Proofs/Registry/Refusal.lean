import Graft.Proofs.Grafting.Work
import Graft.Proofs.InputType
import Graft.Proofs.Registry.Session

set_option autoImplicit false

/-!
Requests that are refused. One is refused if the export cannot be spelled by identifiers, for the first of its
texts that is none; the local name is never the reason. Nothing is left of it, so a host that goes on is told
what it would have been told without it.
-/
namespace Graft

/-- Why a text is no identifier, if it is none. -/
def Identifier.fault? (text : String) : Option Identifier.Fault :=
  match Identifier.ofString text with
  | .ok _ => none
  | .error fault => some fault

theorem Identifier.fault?_eq_some_iff {text : String} {fault : Identifier.Fault} :
    fault? text = some fault ↔ ofString text = .error fault := by
  unfold fault?
  cases ofString text <;> simp

theorem Identifier.fault?_eq_none_iff {text : String} : fault? text = none ↔ isIdentifier text = true := by
  unfold fault? ofString
  by_cases valid : isIdentifier text = true <;> simp [valid]

/-- The texts that an import of an export is made of, in the order in which they are spelled. -/
def Export.spelling (wanted : Export) : List String := Dotted.segments wanted.source ++ [wanted.name]

/-- Why an export cannot be imported, if it cannot: its first text that is no identifier tells. -/
def Export.fault? (wanted : Export) : Option Identifier.Fault := wanted.spelling.findSome? Identifier.fault?

theorem Export.fault?_eq_none_iff {wanted : Export} : wanted.fault? = none ↔
    (∀ segment ∈ Dotted.segments wanted.source, isIdentifier segment = true) ∧
      isIdentifier wanted.name = true := by
  rw [fault?, spelling, List.findSome?_eq_none_iff, List.forall_mem_append, List.forall_mem_singleton]
  simp only [Identifier.fault?_eq_none_iff]

namespace Node

theorem ofIdentifier_eq_error {text : String} {fault : Identifier.Fault}
    (found : Identifier.fault? text = some fault) : ofIdentifier text = .error fault := by
  rw [ofIdentifier, Identifier.fault?_eq_some_iff.1 found]
  rfl

theorem attributeOf_eq_error (base : Node) {text : String} {fault : Identifier.Fault}
    (found : Identifier.fault? text = some fault) : attributeOf base text = .error fault := by
  rw [attributeOf, Identifier.fault?_eq_some_iff.1 found]
  rfl

theorem foldlM_attributeOf_eq_error {segments : List String} {fault : Identifier.Fault}
    (found : segments.findSome? Identifier.fault? = some fault) (base : Node) :
    segments.foldlM attributeOf base = .error fault := by
  induction segments generalizing base with
  | nil => exact absurd found (by simp)
  | cons segment rest ih =>
    rw [List.foldlM_cons]
    cases here : Identifier.fault? segment with
    | some other =>
      obtain rfl : other = fault := by simpa [here] using found
      rw [attributeOf_eq_error base here]
      rfl
    | none =>
      rw [List.findSome?_cons, here] at found
      rw [attributeOf_eq_ok base (Identifier.fault?_eq_none_iff.1 here)]
      exact ih found _

theorem ofDotted_eq_error {text : String} {fault : Identifier.Fault}
    (found : (Dotted.segments text).findSome? Identifier.fault? = some fault) :
    ofDotted text = .error fault := by
  rw [ofDotted]
  cases parts : Dotted.segments text with
  | nil => exact absurd parts (Dotted.segments_ne_nil text)
  | cons first rest =>
    rw [parts] at found
    rw [ofSegments]
    cases here : Identifier.fault? first with
    | some other =>
      obtain rfl : other = fault := by simpa [here] using found
      rw [ofIdentifier_eq_error here]
      rfl
    | none =>
      rw [List.findSome?_cons, here] at found
      rw [ofIdentifier_eq_ok (Identifier.fault?_eq_none_iff.1 here)]
      exact foldlM_attributeOf_eq_error found _

end Node

/-- An import that cannot be spelled fails at the first text that is no identifier, whatever it is to bind. -/
theorem importLine_eq_error {wanted : Export} {fault : Identifier.Fault} (found : wanted.fault? = some fault)
    (bound : String) : importLine wanted bound = .error fault := by
  rw [Export.fault?, Export.spelling, List.findSome?_append] at found
  unfold importLine
  cases early : (Dotted.segments wanted.source).findSome? Identifier.fault? with
  | some other =>
    obtain rfl : other = fault := by simpa [early] using found
    rw [Node.ofDotted_eq_error early]
    rfl
  | none =>
    have segments : ∀ segment ∈ Dotted.segments wanted.source, isIdentifier segment = true :=
      fun segment mem => Identifier.fault?_eq_none_iff.1 (List.findSome?_eq_none_iff.1 early segment mem)
    obtain ⟨source, spelled, -⟩ := Node.ofDotted_spells segments
    have name : Identifier.fault? wanted.name = some fault := by simpa [early] using found
    rw [spelled, Node.ofIdentifier_eq_error name]
    rfl

namespace Registry

/-- A request is refused if and only if it is for an export that is not known and cannot be spelled. -/
theorem ensure_eq_error_iff {registry : Registry} {wanted : Export} {fault : Identifier.Fault} :
    registry.ensure wanted = .error fault ↔
      registry.known.lookup wanted = none ∧ wanted.fault? = some fault := by
  unfold ensure
  cases known : registry.known.lookup wanted with
  | some name => simp
  | none =>
    cases found : wanted.fault? with
    | some other =>
      simp [importLine_eq_error found, bind, Except.bind]
    | none =>
      -- The name is an identifier, so the fresh one is an identifier as well.
      obtain ⟨segments, name⟩ := Export.fault?_eq_none_iff.1 found
      obtain ⟨line, made, -⟩ :=
        importLine_of_identifiers segments name (Fresh.isIdentifier_choose registry.taken name)
      simp [made, bind, Except.bind, pure, Except.pure]

theorem Sound.ensure {registry : Registry} (sound : registry.Sound) {wanted : Export} {ensured : Ensured}
    (met : registry.ensure wanted = .ok ensured) : ensured.registry.Sound := by
  obtain ⟨-, same, -⟩ | ⟨-, -, -, line, made, same⟩ := ensure_cases met
  next => rwa [same]
  next =>
    intro entry mem
    rw [same] at mem
    obtain mem | mem := List.mem_append.1 mem
    next => exact sound entry mem
    next =>
      rw [List.mem_singleton.1 mem]
      exact (importsAs_of_importLine made).2

/-- What a host calls known is what it is told a name of. -/
theorem Sound.lookup_eq_empty_iff {registry : Registry} (sound : registry.Sound) {wanted : Export} :
    registry.lookup wanted = "" ↔ registry.known.lookup wanted = none := by
  unfold Registry.lookup
  cases known : registry.known.lookup wanted with
  | none => simp
  | some name =>
    obtain ⟨before, after, place, -⟩ := List.lookup_eq_some_iff.1 known
    have valid := sound (wanted, name) (by simp [place])
    simpa using isIdentifier_ne_empty valid

namespace Session

/-- The local names of a registry in use are identifiers, those that it has made among them. -/
theorem sound_run {session : Session} (sound : session.registry.Sound) (operations : List Operation) :
    (session.run operations).registry.Sound :=
  Invariant.run ⟨fun sound met => sound.ensure met, id⟩ sound operations

end Session

/-- What a host is told: a name or why there is none, or a module. -/
inductive Told where
  | name (given : Except Identifier.Fault String)
  | module (written : Module)

namespace Session

/-- What a host is told by an operation, and whether imports wait after it. -/
def answer (session : Session) (operation : Operation) : Told × Bool :=
  (match operation with
    | .ensure wanted => .name ((session.registry.ensure wanted).map Ensured.name)
    | .lookup wanted => .name (.ok (session.registry.lookup wanted))
    | .apply module => .module (session.registry.apply module).2,
   (session.step operation).registry.hasPending)

def answers : Session → List Operation → List (Told × Bool)
  | _, [] => []
  | session, operation :: rest => session.answer operation :: (session.step operation).answers rest

theorem step_of_refused {session : Session} {wanted : Export} {fault : Identifier.Fault}
    (refused : session.registry.ensure wanted = .error fault) : session.step (.ensure wanted) = session := by
  rw [step, refused]

theorem answers_of_refused {session : Session} {wanted : Export} {fault : Identifier.Fault}
    (refused : session.registry.ensure wanted = .error fault) (later : List Operation) :
    session.answers (.ensure wanted :: later) =
      (.name (.error fault), session.registry.hasPending) :: session.answers later := by
  rw [answers, answer, step_of_refused refused, refused]
  rfl

end Session

end Registry

/-- A request in the course of some work is the registry's; a refused one stops the work where it is. -/
theorem Work.outcome_ensure (wanted : Export) (before : Progress) :
    (Work.ensure wanted).outcome before = match before.registry.ensure wanted with
      | .ok ensured => (.ok ensured.name, { before with
          registry := ensured.registry
          notices := before.notices ++ ensured.notices })
      | .error fault => (.error (.identifier fault), before) := by
  simp only [Work.ensure, outcome_bind, outcome_get, outcome_ofExcept]
  cases before.registry.ensure wanted with
  | error fault => rfl
  | ok ensured => rfl

namespace Registry

/-- A registry in use refuses a request if and only if it does not know the export and some text of it is no
identifier. A refused request leaves the registry, and the work it was made for, as they were; whatever is
done later is answered as it would have been without it. -/
theorem refused_requests_leave_nothing {module : Module} (wellFormed : module.wellFormed = true)
    (survey : Scope.Survey) (operations : List Operation) (wanted : Export) :
    let start : Session := ⟨(ofModule module survey).1, []⟩
    let session := start.run operations
    let bound := session.registry.lookup wanted
    (bound ≠ "" → session.registry.ensure wanted = .ok ⟨bound, session.registry, []⟩) ∧
    (bound = "" → ((∃ fault, session.registry.ensure wanted = .error fault) ↔
      isIdentifier wanted.name = false ∨
        ∃ segment ∈ Dotted.segments wanted.source, isIdentifier segment = false)) ∧
    ∀ fault, session.registry.ensure wanted = .error fault →
      wanted.fault? = some fault ∧
      (∀ before : Progress, before.registry = session.registry →
        (Work.ensure wanted).outcome before = (.error (.identifier fault), before)) ∧
      ∀ later, session.run (.ensure wanted :: later) = session.run later ∧
        session.answers (.ensure wanted :: later) =
          (.name (.error fault), session.registry.hasPending) :: session.answers later := by
  intro start session bound
  have sound : session.registry.Sound := Session.sound_run (ofModule_sound wellFormed survey) operations
  refine ⟨fun known => ?_, fun unknown => ?_, fun fault refused => ⟨?_, ?_, fun later => ⟨?_, ?_⟩⟩⟩
  next =>
    obtain ⟨name, found⟩ := Option.ne_none_iff_exists'.1 (mt sound.lookup_eq_empty_iff.2 known)
    have same : bound = name := lookup_of_known found
    rw [same]
    exact ensure_of_lookup found
  next =>
    have missing := sound.lookup_eq_empty_iff.1 unknown
    have spelled : (∃ fault, wanted.fault? = some fault) ↔ wanted.fault? ≠ none :=
      Option.ne_none_iff_exists'.symm
    simp only [ensure_eq_error_iff, missing, true_and, spelled, ne_eq, Export.fault?_eq_none_iff]
    rw [not_and_or, or_comm]
    simp
  next => exact (ensure_eq_error_iff.1 refused).2
  next =>
    intro before here
    rw [Work.outcome_ensure, here, refused]
  next => rw [Session.run, List.foldl_cons, Session.step_of_refused refused, Session.run]
  next => exact Session.answers_of_refused refused later

/-- A package that begins with a digit cannot be imported. The request for it comes between one that is met
under a new name and the writing of the queue, and neither sees it. -/
theorem refused_request_for_digit : ∃ module survey,
    Module.parse? "from forms.base import library\n" = some module ∧ Scope.survey module = .ok survey ∧
      let wanted : Export := ⟨"forms.2extra", "library"⟩
      let start : Session := ⟨(ofModule module survey).1, []⟩
      let session := start.run [.ensure ⟨"forms.extra", "library"⟩]
      session.registry.lookup ⟨"forms.extra", "library"⟩ = "_library" ∧
        session.registry.lookup wanted = "" ∧
        session.registry.ensure wanted = .error (.malformed "2extra") ∧
        session.answers [.ensure wanted, .apply module] =
          (.name (.error (.malformed "2extra")), true) :: session.answers [.apply module] := by
  have check : ((Module.parse? "from forms.base import library\n").bind fun module =>
      (Scope.survey module).toOption.map fun survey =>
        let start : Session := ⟨(ofModule module survey).1, []⟩
        let session := start.run [.ensure ⟨"forms.extra", "library"⟩]
        session.registry.lookup ⟨"forms.extra", "library"⟩ == "_library" &&
          session.registry.lookup ⟨"forms.2extra", "library"⟩ == "" &&
            session.registry.hasPending) = some true := by
    decide +kernel
  obtain ⟨module, parsed, check⟩ := Option.bind_eq_some_iff.1 check
  obtain ⟨survey, surveyed, check⟩ := Option.map_eq_some_iff.1 check
  simp only [Bool.and_eq_true, beq_iff_eq] at check
  obtain ⟨⟨met, unknown⟩, waits⟩ := check
  obtain ⟨-, refuses, leaves⟩ := refused_requests_leave_nothing (Module.wellFormed_of_parse? parsed) survey
    [.ensure ⟨"forms.extra", "library"⟩] ⟨"forms.2extra", "library"⟩
  obtain ⟨fault, refused⟩ := (refuses unknown).2 (.inr ⟨"2extra", by decide +kernel, by decide +kernel⟩)
  obtain ⟨first, -, later⟩ := leaves fault refused
  -- The first text that is no identifier is the segment with the digit.
  have culprit : Export.fault? ⟨"forms.2extra", "library"⟩ = some (.malformed "2extra") := by
    decide +kernel
  obtain rfl := Option.some.inj (first.symm.trans culprit)
  refine ⟨module, survey, parsed, eq_ok_of_toOption surveyed, met, unknown, refused, ?_⟩
  rw [(later [.apply module]).2, waits]

end Registry

end Graft
