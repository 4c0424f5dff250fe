import Graft.Console

set_option autoImplicit false

/-!
The routing of notices through all that a host does with its journal. One handler writes to the current
console and none to another, and the handlers that the host has besides stay as they are.
-/
namespace Graft

namespace Level

/-- A level that lets informative notices through, and says so itself. -/
def IsAudible (level : Level) : Prop := level ≠ unset ∧ level.rank ≤ info.rank

end Level

namespace Journal

theorem audible_isAudible (level : Level) : (audible level).IsAudible := by
  unfold audible
  split
  next => exact ⟨by decide, Int.le_refl _⟩
  next loud =>
    rw [not_or, Int.not_lt] at loud
    exact loud

theorem audible_of_isAudible {level : Level} (loud : level.IsAudible) : audible level = level := by
  have kept : ¬(level = Level.unset ∨ Level.info.rank < level.rank) := by
    rw [not_or, Int.not_lt]
    exact loud
  rw [audible, if_neg kept]

/-- What every run keeps. `others` are the handlers that do not write to consoles. -/
structure Routes (others : List Handler) (journal : Journal) : Prop where
  console : journal.handlers.filter Handler.isConsole = [.console journal.current]
  others : journal.handlers.filter (fun handler => !handler.isConsole) = others
  fresh : journal.current.serial < journal.fresh

theorem bind_routes {others : List Handler} {journal : Journal} {console : Console}
    (kept : journal.handlers.filter (fun handler => !handler.isConsole) = others)
    (known : console.serial < journal.fresh) : (journal.bind console).Routes others where
  console := by
    rw [bind, List.filter_append, List.filter_eq_nil_iff.2 (by simp)]
    rfl
  others := by
    rw [bind, List.filter_append, kept, List.filter_eq_self.2 (by simp [← kept])]
    exact List.append_nil others
  fresh := known

theorem adopt_routes {others : List Handler} {journal : Journal}
    (kept : journal.handlers.filter (fun handler => !handler.isConsole) = others)
    (console : Console) : (journal.adopt console).Routes others := by
  apply bind_routes
  next => exact kept
  next =>
    change console.serial < max journal.fresh (console.serial + 1)
    omega

theorem opened_routes (handlers : List Handler) (level : Level) (fresh : Nat) :
    (opened handlers level fresh).Routes (handlers.filter fun handler => !handler.isConsole) := by
  apply adopt_routes
  rfl

theorem step_routes {others : List Handler} {journal : Journal} (routes : journal.Routes others)
    (event : Event) : (journal.step event).1.Routes others := by
  cases event with
  | console target => exact adopt_routes routes.others target
  | reset => exact adopt_routes routes.others _
  | level level => exact ⟨routes.console, routes.others, routes.fresh⟩
  | notice notice => exact routes

theorem run_cons (journal : Journal) (event : Event) (rest : List Event) :
    journal.run (event :: rest) = (((journal.step event).1.run rest).1,
      (journal.step event).2 ++ ((journal.step event).1.run rest).2) :=
  rfl

theorem run_routes {others : List Handler} {journal : Journal} (routes : journal.Routes others)
    (events : List Event) : (journal.run events).1.Routes others := by
  induction events generalizing journal with
  | nil => exact routes
  | cons event rest ih => exact ih (step_routes routes event)

theorem step_level (journal : Journal) {event : Event} (sets : event.setsConsole = true) :
    (journal.step event).1.level = audible journal.level := by
  cases event with
  | console target => rfl
  | reset => rfl
  | level level => exact absurd sets (by simp [Event.setsConsole])
  | notice notice => exact absurd sets (by simp [Event.setsConsole])

theorem filterMap_target? (handlers : List Handler) :
    handlers.filterMap Handler.target? = (handlers.filter Handler.isConsole).filterMap Handler.target? := by
  rw [List.filterMap_filter]
  congr 1
  funext handler
  cases handler <;> rfl

theorem targets_eq {others : List Handler} {journal : Journal} (routes : journal.Routes others)
    (notice : Notice) : journal.targets notice =
      if journal.admits notice.severity then [journal.current] else [] := by
  rw [targets, filterMap_target?, routes.console]
  rfl

theorem written_eq {others : List Handler} {journal : Journal} (routes : journal.Routes others)
    (console : Console) (notice : Notice) : journal.written console notice =
      if journal.admits notice.severity ∧ console = journal.current then notice.lines else [] := by
  rw [written, targets_eq routes]
  by_cases admitted : journal.admits notice.severity = true
  next =>
    by_cases same : console = journal.current
    next => simp [admitted, same]
    next => simp [admitted, same, Ne.symm same]
  next => simp [admitted]

/-- What is to be delivered when something happens: an admitted notice, to the current console. -/
def due (journal : Journal) : Event → List Delivery
  | .notice notice => if journal.admits notice.severity then [(journal.current, notice)] else []
  | _ => []

theorem step_due {others : List Handler} {journal : Journal} (routes : journal.Routes others)
    (event : Event) : (journal.step event).2 = journal.due event := by
  cases event with
  | console target => rfl
  | reset => rfl
  | level level => rfl
  | notice notice =>
    simp only [step, due, targets_eq routes]
    split <;> rfl

theorem run_due {others : List Handler} {journal : Journal} (routes : journal.Routes others)
    (events : List Event) : (journal.run events).2 =
      events.zipIdx.flatMap fun (event, i) => (journal.run (events.take i)).1.due event := by
  induction events generalizing journal with
  | nil => rfl
  | cons event rest ih =>
    rw [run_cons, step_due routes, ih (step_routes routes event), List.zipIdx_cons, List.flatMap_cons,
      List.zipIdx_succ, List.flatMap_map]
    rfl

theorem step_fresh (journal : Journal) (event : Event) :
    journal.fresh ≤ (journal.step event).1.fresh := by
  cases event with
  | console target => exact Nat.le_max_left _ _
  | reset => exact Nat.le_max_left _ _
  | level level => exact Nat.le_refl _
  | notice notice => exact Nat.le_refl _

theorem run_fresh (journal : Journal) (events : List Event) :
    journal.fresh ≤ (journal.run events).1.fresh := by
  induction events generalizing journal with
  | nil => exact Nat.le_refl _
  | cons event rest ih => exact Nat.le_trans (step_fresh journal event) (ih _)

/-- A console that was there before, and is the current one no more. -/
structure Replaced (journal : Journal) (console : Console) : Prop where
  old : console.serial < journal.fresh
  other : console ≠ journal.current

/-- Only its host brings a console back. The standard console is a new one each time. -/
theorem step_replaced {journal : Journal} {console : Console} (replaced : journal.Replaced console)
    {event : Event} (away : event ≠ .console console) :
    (journal.step event).1.Replaced console := by
  have old := Nat.lt_of_lt_of_le replaced.old (step_fresh journal event)
  cases event with
  | console target => exact ⟨old, fun same => away (congrArg Event.console same.symm)⟩
  | reset =>
    refine ⟨old, ?_⟩
    rintro rfl
    exact absurd replaced.old (Nat.lt_irrefl _)
  | level level => exact ⟨old, replaced.other⟩
  | notice notice => exact ⟨old, replaced.other⟩

theorem run_replaced {others : List Handler} {journal : Journal} (routes : journal.Routes others)
    {console : Console} (replaced : journal.Replaced console) {events : List Event}
    (away : Event.console console ∉ events) :
    ∀ delivery ∈ (journal.run events).2, delivery.1 ≠ console := by
  induction events generalizing journal with
  | nil => simp [run]
  | cons event rest ih =>
    rw [List.mem_cons, not_or] at away
    have later := ih (step_routes routes event) (step_replaced replaced (Ne.symm away.1)) away.2
    intro delivery mem
    rw [run_cons] at mem
    obtain now | mem := List.mem_append.1 mem
    next =>
      rw [step_due routes] at now
      cases event with
      | notice notice =>
        simp only [due] at now
        split at now
        next =>
          obtain rfl := List.mem_singleton.1 now
          exact replaced.other.symm
        next => exact absurd now (by simp)
      | console target => exact absurd now (by simp [due])
      | reset => exact absurd now (by simp [due])
      | level level => exact absurd now (by simp [due])
    next => exact later delivery mem

/-- Whatever a host has set up, and whatever it does then: one handler writes to a console, the current one,
and the others are those of the host. Setting a console makes the level audible, and leaves it where it is if
it is so already. A notice is written once, to the console that is current when it comes, if the level of that
moment admits it; and a console that has been replaced gets nothing until the host sets it again. -/
theorem run_routing (handlers : List Handler) (level : Level) (fresh : Nat) (events : List Event) :
    let start := opened handlers level fresh
    let journal := (start.run events).1
    journal.handlers.filter Handler.isConsole = [.console journal.current] ∧
    journal.handlers.filter (fun handler => !handler.isConsole) =
      handlers.filter (fun handler => !handler.isConsole) ∧
    (∀ event, event.setsConsole = true →
      (journal.step event).1.level.IsAudible ∧
        (journal.level.IsAudible → (journal.step event).1.level = journal.level)) ∧
    (∀ console notice, journal.written console notice =
      if journal.admits notice.severity ∧ console = journal.current then notice.lines else []) ∧
    (start.run events).2 =
      events.zipIdx.flatMap (fun (event, i) => (start.run (events.take i)).1.due event) ∧
    ∀ between later, Event.console journal.current ∉ later →
      let changed := (journal.run between).1
      journal.current ≠ changed.current →
        ∀ delivery ∈ (changed.run later).2, delivery.1 ≠ journal.current := by
  intro start journal
  have opens : start.Routes (handlers.filter fun handler => !handler.isConsole) :=
    opened_routes handlers level fresh
  have routes := run_routes opens events
  refine ⟨routes.console, routes.others, fun event sets => ?_, written_eq routes, run_due opens events, ?_⟩
  next =>
    rw [step_level journal sets]
    exact ⟨audible_isAudible _, audible_of_isAudible⟩
  next =>
    intro between later away changed other
    have old := Nat.lt_of_lt_of_le routes.fresh (run_fresh journal between)
    exact run_replaced (run_routes routes between) ⟨old, other⟩ away

/-- The host has a handler of its own, and levels that have no names. The first console is replaced and left
alone, also by a reset, until it is set again. -/
theorem run_routing_console_set_again :
    let start := opened [.other 1, .console ⟨3, 80⟩] ⟨15⟩ 0
    let standard : Console := ⟨0, standardWidth⟩
    let host : Console := ⟨7, 200⟩
    let between : List Event := [.notice (.warning "a"), .console host]
    let later : List Event := [.notice (.warning "b"), .level ⟨35⟩, .notice (.warning "c"), .reset, .level ⟨5⟩]
    let events := between ++ later ++ [.console standard, .notice (.debug "d")]
    let journal := (start.run events).1
    start.current = standard ∧ (start.run between).1.current = host ∧
      (∀ delivery ∈ ((start.run between).1.run later).2, delivery.1 ≠ standard) ∧
      (start.run events).2 = [(standard, .warning "a"), (host, .warning "b"), (standard, .debug "d")] ∧
      journal.handlers = [.other 1, .console standard] ∧ (journal.step .reset).1.level = ⟨5⟩ := by
  intro start standard host between later events journal
  obtain ⟨-, -, -, -, -, never⟩ := run_routing [.other 1, .console ⟨3, 80⟩] ⟨15⟩ 0 []
  obtain ⟨-, -, levels, -, delivered, -⟩ := run_routing [.other 1, .console ⟨3, 80⟩] ⟨15⟩ 0 events
  have audible : Level.IsAudible ⟨5⟩ := ⟨by decide, by decide⟩
  refine ⟨rfl, rfl, never between later (by decide) (by decide), ?_, rfl, (levels .reset rfl).2 audible⟩
  rw [delivered]
  decide

example : initial = (opened [] Level.warning 0).setLevel Level.warning := rfl

end Journal

end Graft
