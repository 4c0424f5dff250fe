import Graft.Proofs.Grafting.Work
import Graft.Proofs.Registry.Session

set_option autoImplicit false

/-!
What the work on a module depends on and what it leaves behind. It does not look at what was reported
before; it reports its advice in the tally and in the log alike, and requests the imports that the
configurations need, one use after the other.
-/
namespace Graft

def Notice.isWarning (notice : Notice) : Bool := notice.severity == .warning

/-- What there is to advise about a use. -/
def Use.advice (settings : Settings) (use : Use) : Option String :=
  if use.call.isConfigured then none
  else if use.call.hasUnpacking then some (Work.unpackingAdvice use)
  else match use.classify settings with
    | .ok ⟨.dynamic, _⟩ => some (boundTypeAdvice use.label)
    | _ => none

theorem advice_of_classify {default place : String} {props : Option Node} {classified : Classified}
    (known : classify default place props = .ok classified) :
    classified.advice =
      if classified.decision = .dynamic then some (boundTypeAdvice place) else none := by
  unfold classify at known
  split at known
  next => rw [← Except.ok.inj known]; rfl
  next props =>
    cases displayed : props.entries? with
    | none =>
      rw [displayed] at known
      rw [← Except.ok.inj known]
      rfl
    | some entries =>
      simp only [displayed] at known
      obtain ⟨found, -, known⟩ := bind_eq_ok.1 known
      cases found <;> rw [← Except.ok.inj known] <;> rfl

/-- The exports that the configuration of a use needs. -/
def Use.needs (settings : Settings) (use : Use) : List Export :=
  if use.isSkipped then []
  else match use.classify settings with
    | .ok classified => [settings.bindings, Naming.library settings classified.decision]
    | .error _ => []

namespace Work

variable {A B : Type}

/-- Progress that differs in its reports only. -/
structure Alike (first second : Progress) : Prop where
  registry : first.registry = second.registry
  configs : first.configs = second.configs

def Blind (work : Work A) : Prop := ∀ first second, Alike first second →
  (work.outcome first).1 = (work.outcome second).1 ∧
    Alike (work.outcome first).2 (work.outcome second).2

namespace Blind

theorem pure (result : A) : Blind (pure result : Work A) := fun _ _ alike => ⟨rfl, alike⟩

theorem bind {first : Work A} {next : A → Work B} (head : Blind first)
    (tail : ∀ result, Blind (next result)) : Blind (first >>= next) := by
  intro before other alike
  rw [outcome_bind, outcome_bind]
  obtain ⟨same, between⟩ := head before other alike
  cases one : first.outcome before with
  | mk result after =>
    cases two : first.outcome other with
    | mk again later =>
      simp only [one, two] at same between
      subst same
      cases result with
      | error fault => exact ⟨rfl, between⟩
      | ok result => exact tail result after later between

theorem modify {change : Progress → Progress}
    (keeps : ∀ first second, Alike first second → Alike (change first) (change second)) :
    Blind (modify change : Work Unit) := fun _ _ alike => ⟨rfl, keeps _ _ alike⟩

theorem ofExcept {E : Type} (cause : E → Fault) (result : Except E A) :
    Blind (Work.ofExcept cause result) := by
  intro first second alike
  rw [outcome_ofExcept, outcome_ofExcept]
  exact ⟨rfl, alike⟩

theorem notify (notices : List Notice) : Blind (Work.notify notices) :=
  modify fun _ _ alike => ⟨alike.registry, alike.configs⟩

theorem warn (warning : String) : Blind (Work.warn warning) :=
  modify fun _ _ alike => ⟨alike.registry, alike.configs⟩

theorem skip : Blind Work.skip := modify fun _ _ alike => ⟨alike.registry, alike.configs⟩

theorem configure (address : Address) (config : Node) : Blind (Work.configure address config) :=
  modify fun _ _ alike => ⟨alike.registry, by rw [alike.configs]⟩

theorem ensure (wanted : Export) : Blind (Work.ensure wanted) := by
  intro first second alike
  simp only [Work.ensure, outcome_bind, outcome_get, outcome_ofExcept, alike.registry]
  cases second.registry.ensure wanted with
  | error fault => exact ⟨rfl, alike⟩
  | ok ensured => exact ⟨rfl, rfl, alike.configs⟩

theorem synthesize (settings : Settings) (use : Use) (decision : Decision) :
    Blind (Work.synthesize settings use decision) :=
  bind (ensure _) fun _ => bind (ensure _) fun _ => bind (notify _) fun _ => ofExcept _ _

theorem classify (default place : String) (props : Option Node) :
    Blind (Work.classify default place props) := by
  intro first second alike
  rw [outcome_classify, outcome_classify]
  cases Graft.classify default place props with
  | error fault => exact ⟨rfl, alike⟩
  | ok classified => exact ⟨rfl, alike.registry, alike.configs⟩

theorem prepare (settings : Settings) (use : Use) : Blind (Work.prepare settings use) := by
  unfold Work.prepare
  split
  next => exact bind (notify _) fun _ => pure _
  split
  next => exact bind (notify _) fun _ => bind (warn _) fun _ => pure _
  exact bind (classify _ _ _) fun _ => bind (synthesize _ _ _) fun _ => pure _

theorem prepareAll (settings : Settings) (uses : List Use) : Blind (Work.prepareAll settings uses) := by
  induction uses with
  | nil => exact pure ()
  | cons use rest ih =>
    refine bind (prepare settings use) fun found => ?_
    cases found with
    | none => exact bind skip fun _ => ih
    | some config => exact bind (configure _ _) fun _ => ih

end Blind

/-- What some work leaves behind: warnings in the tally, warnings in the log, and requests. -/
structure Effect where
  warnings : List String := []
  records : List Notice := []
  requests : List Export := []

def Effect.append (first second : Effect) : Effect :=
  ⟨first.warnings ++ second.warnings, first.records ++ second.records, first.requests ++ second.requests⟩

instance : Append Effect := ⟨Effect.append⟩

theorem Effect.append_eq (first second : Effect) : first ++ second =
    ⟨first.warnings ++ second.warnings, first.records ++ second.records,
      first.requests ++ second.requests⟩ := rfl

/-- The effect is seen in the progress. Of the registry, it is seen in its account of the requests. -/
structure Effect.Seen (effect : Effect) (before after : Progress) : Prop where
  warnings : after.tally.warnings = before.tally.warnings ++ effect.warnings
  records : ∃ notices, after.notices = before.notices ++ notices ∧
    notices.filter Notice.isWarning = effect.records
  requests : ∀ first asked added, Registry.Session.Accounts first asked added ⟨before.registry, []⟩ →
    ∃ more, Registry.Session.Accounts first (asked ++ effect.requests) (added ++ more) ⟨after.registry, []⟩

theorem Effect.Seen.trans {early late : Effect} {first second third : Progress}
    (head : early.Seen first second) (tail : late.Seen second third) : (early ++ late).Seen first third where
  warnings := by rw [tail.warnings, head.warnings, List.append_assoc]; rfl
  records := by
    obtain ⟨notices, noted, records⟩ := head.records
    obtain ⟨others, more, rest⟩ := tail.records
    exact ⟨notices ++ others, by rw [more, noted, List.append_assoc],
      by rw [List.filter_append, records, rest]; rfl⟩
  requests origin asked added accounts := by
    obtain ⟨some, between⟩ := head.requests _ _ _ accounts
    obtain ⟨more, after⟩ := tail.requests _ _ _ between
    exact ⟨some ++ more, by simpa [Effect.append_eq] using after⟩

theorem Effect.Seen.idle {before after : Progress}
    (warnings : after.tally.warnings = before.tally.warnings) (notices : after.notices = before.notices)
    (registry : after.registry = before.registry) : Effect.Seen {} before after where
  warnings := by simp [warnings]
  records := ⟨[], by simp [notices], rfl⟩
  requests _ _ _ accounts := ⟨[], by simpa [registry] using accounts⟩

/-- Work that, if it succeeds, has an effect. -/
def Leaves (work : Work A) (effect : Effect) : Prop :=
  ∀ before result after, work.outcome before = (.ok result, after) → effect.Seen before after

namespace Leaves

theorem pure (result : A) : Leaves (pure result : Work A) {} := by
  rintro before _ _ ran
  obtain ⟨-, rfl⟩ := Prod.mk.inj ran
  exact .idle rfl rfl rfl

theorem bind {first : Work A} {next : A → Work B} {early late : Effect} (head : Leaves first early)
    (tail : ∀ result, Leaves (next result) late) : Leaves (first >>= next) (early ++ late) := by
  intro before result after ran
  rw [outcome_bind] at ran
  cases one : first.outcome before with
  | mk middle between =>
    cases middle with
    | error fault => rw [one] at ran; exact absurd ran (by simp)
    | ok middle =>
      rw [one] at ran
      exact (head _ _ _ one).trans (tail _ _ _ _ ran)

theorem silently {first : Work A} {next : A → Work B} {effect : Effect}
    (head : Leaves first {}) (tail : ∀ result, Leaves (next result) effect) :
    Leaves (first >>= next) effect := by
  simpa [Effect.append_eq] using head.bind tail

theorem ended {first : Work A} {next : A → Work B} {effect : Effect}
    (head : Leaves first effect) (tail : ∀ result, Leaves (next result) {}) :
    Leaves (first >>= next) effect := by
  simpa [Effect.append_eq] using head.bind tail

theorem ofExcept {E : Type} (cause : E → Fault) (result : Except E A) :
    Leaves (Work.ofExcept cause result) {} := by
  intro before _ _ ran
  rw [outcome_ofExcept] at ran
  obtain ⟨-, rfl⟩ := Prod.mk.inj ran
  exact .idle rfl rfl rfl

theorem notify (notices : List Notice) :
    Leaves (Work.notify notices) { records := notices.filter Notice.isWarning } := by
  rintro before _ _ ran
  obtain ⟨-, rfl⟩ := Prod.mk.inj ran
  exact ⟨by simp, ⟨notices, rfl, rfl⟩, fun _ _ _ accounts => ⟨[], by simpa using accounts⟩⟩

theorem warn (warning : String) : Leaves (Work.warn warning) { warnings := [warning] } := by
  rintro before _ _ ran
  obtain ⟨-, rfl⟩ := Prod.mk.inj ran
  exact ⟨rfl, ⟨[], by simp, rfl⟩, fun _ _ _ accounts => ⟨[], by simpa using accounts⟩⟩

theorem skip : Leaves Work.skip {} := by
  rintro before _ _ ran
  obtain ⟨-, rfl⟩ := Prod.mk.inj ran
  exact .idle rfl rfl rfl

theorem configure (address : Address) (config : Node) : Leaves (Work.configure address config) {} := by
  rintro before _ _ ran
  obtain ⟨-, rfl⟩ := Prod.mk.inj ran
  exact .idle rfl rfl rfl

theorem ensure (wanted : Export) : Leaves (Work.ensure wanted) { requests := [wanted] } := by
  intro before result after ran
  simp only [Work.ensure, outcome_bind, outcome_get, outcome_ofExcept] at ran
  cases met : before.registry.ensure wanted with
  | error fault =>
    rw [met] at ran
    obtain ⟨failed, -⟩ := Prod.mk.inj ran
    exact absurd failed (by simp)
  | ok ensured =>
    rw [met] at ran
    obtain ⟨-, rfl⟩ := Prod.mk.inj ran
    -- All that a registry tells is what it queues.
    have quiet : ensured.notices.filter Notice.isWarning = [] := by
      obtain ⟨-, -, none⟩ | ⟨-, -, queued, -⟩ := Registry.ensure_cases met
      next => rw [none]; rfl
      next => rw [queued]; rfl
    exact ⟨by simp, ⟨_, rfl, quiet⟩, fun _ _ _ accounts => accounts.ensure met⟩

theorem synthesize (settings : Settings) (use : Use) (decision : Decision) :
    Leaves (Work.synthesize settings use decision)
      { requests := [settings.bindings, Naming.library settings decision] } :=
  (ensure settings.bindings).bind fun _ => (ensure (Naming.library settings decision)).ended fun _ =>
    silently (notify [configuredNotice _ _ _]) fun _ => ofExcept _ _

theorem seen_classified (before : Progress) (classified : Classified) :
    Effect.Seen ⟨classified.advice.toList, classified.advice.toList.map Notice.warning, []⟩ before
      { before with
        tally := { before.tally with warnings := before.tally.warnings ++ classified.advice.toList }
        notices := before.notices ++ classified.notices } := by
  refine ⟨rfl, ⟨classified.notices, rfl, ?_⟩, fun _ _ _ accounts => ⟨[], by simpa using accounts⟩⟩
  unfold Classified.notices
  cases classified.advice <;> rfl

theorem prepare (settings : Settings) (use : Use) : Leaves (Work.prepare settings use)
    ⟨(use.advice settings).toList, (use.advice settings).toList.map Notice.warning,
      use.needs settings⟩ := by
  cases kept : use.isSkipped with
  | true =>
    have needless : use.needs settings = [] := by simp [Use.needs, kept]
    rw [needless]
    unfold Work.prepare Use.advice
    split
    next => exact (notify [.debug _]).bind fun _ => pure _
    next bare =>
      have unpacks : use.call.hasUnpacking = true := by simpa [Use.isSkipped, bare] using kept
      simp only [unpacks, if_true]
      exact (notify [.warning _]).bind fun _ => (warn _).bind fun _ => pure _
  | false =>
    have advised : use.advice settings = match use.classify settings with
        | .ok ⟨.dynamic, _⟩ => some (boundTypeAdvice use.label)
        | _ => none := by
      simp only [Use.isSkipped, Bool.or_eq_false_iff] at kept
      simp [Use.advice, kept.1, kept.2]
    rw [prepare_eq kept, advised, Use.needs, if_neg (by simp [kept])]
    cases known : use.classify settings with
    | error fault =>
      intro before result after ran
      rw [outcome_bind, outcome_classify, ← Use.classify, known] at ran
      exact absurd ran (by simp)
    | ok classified =>
      -- The classifier gives advice exactly if the type is not known.
      have told := advice_of_classify known
      intro before result after ran
      rw [outcome_bind, outcome_classify, ← Use.classify, known] at ran
      have rest := (synthesize settings use classified.decision).ended (fun config => pure (some config)) _ _ _ ran
      obtain ⟨decision, advice⟩ := classified
      cases decision with
      | static type =>
        obtain rfl : advice = none := by simpa using told
        exact (seen_classified before ⟨.static type, none⟩).trans rest
      | dynamic =>
        obtain rfl : advice = some (boundTypeAdvice use.label) := by simpa using told
        exact (seen_classified before ⟨.dynamic, some _⟩).trans rest

theorem prepareAll (settings : Settings) (uses : List Use) : Leaves (Work.prepareAll settings uses)
    ⟨uses.filterMap (Use.advice settings), (uses.filterMap (Use.advice settings)).map Notice.warning,
      uses.flatMap (Use.needs settings)⟩ := by
  induction uses with
  | nil => exact pure ()
  | cons use rest ih =>
    have whole : (use :: rest).filterMap (Use.advice settings) =
        (use.advice settings).toList ++ rest.filterMap (Use.advice settings) := by
      rw [List.filterMap_cons]
      cases use.advice settings <;> rfl
    -- The first use comes first in each of the three lists.
    rw [whole, List.map_append, List.flatMap_cons]
    refine @bind _ _ _ _ _ ⟨rest.filterMap (Use.advice settings),
      (rest.filterMap (Use.advice settings)).map Notice.warning, rest.flatMap (Use.needs settings)⟩
      (prepare settings use) fun found => ?_
    cases found with
    | none => exact skip.silently fun _ => ih
    | some config => exact (configure _ _).silently fun _ => ih

end Leaves

end Work

end Graft
