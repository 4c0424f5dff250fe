import Graft.Grafting
import Graft.Proofs.Registry.Requests

set_option autoImplicit false

/-!
The work on the uses of a module. It fails only where the type of a use cannot be read; otherwise
every use that is not skipped gets its configuration.
-/
namespace Graft

/-- A use that keeps its arguments. -/
def Use.isSkipped (use : Use) : Bool := use.call.isConfigured || use.call.hasUnpacking

def Use.classify (settings : Settings) (use : Use) : Except Fault Classified :=
  Graft.classify settings.defaultType use.label use.call.props?

/-- The configuration that names two plugins. -/
def Node.configOf (bindings library : Identifier) : Node :=
  .plain .dict [.glue [.text "\x7b"],
    .plain .entries [.plain .entry [.plain .string [.text "\"plugins\""], .glue [.text ": "],
      .plain .list [.glue [.text "["], .name {} bindings, .glue [.text ", "], .name {} library,
        .glue [.text "]"]],
      .absent]],
    .glue [.text "\x7d"]]

theorem configDict_pair (bindings library : Identifier) :
    configDict [bindings.text, library.text] = .ok (.configOf bindings library) := by
  simp [configDict, Node.ofIdentifier_eq_ok bindings.valid, Node.ofIdentifier_eq_ok library.valid,
    List.mapM_cons, Node.configOf, List.intersperse]
  rfl

namespace Work

variable {A B : Type}

/-- The result of some work, and the progress after it. -/
def outcome (work : Work A) (before : Progress) : Except Fault A × Progress := work.run.run before

@[simp] theorem outcome_pure (a : A) (before : Progress) :
    (pure a : Work A).outcome before = (.ok a, before) := rfl

@[simp] theorem outcome_get (before : Progress) :
    (get : Work Progress).outcome before = (.ok before, before) := rfl

@[simp] theorem outcome_modify (change : Progress → Progress) (before : Progress) :
    (modify change : Work Unit).outcome before = (.ok (), change before) := rfl

@[simp] theorem outcome_ofExcept {E : Type} (cause : E → Fault) (result : Except E A)
    (before : Progress) : (Work.ofExcept cause result).outcome before = (result.mapError cause, before) := by
  cases result <;> rfl

theorem outcome_bind (first : Work A) (next : A → Work B) (before : Progress) :
    (first >>= next).outcome before = match first.outcome before with
      | (.ok a, after) => (next a).outcome after
      | (.error fault, after) => (.error fault, after) := by
  unfold outcome
  rw [ExceptT.run_bind, StateT.run_bind]
  generalize StateT.run first.run before = ran
  obtain ⟨result | result, after⟩ := ran <;> rfl

theorem outcome_classify (default place : String) (props : Option Node) (before : Progress) :
    (classify default place props).outcome before = match Graft.classify default place props with
      | .ok classified => (.ok classified.decision, { before with
          tally := { before.tally with warnings := before.tally.warnings ++ classified.advice.toList }
          notices := before.notices ++ classified.notices })
      | .error fault => (.error fault, before) := by
  unfold classify
  rw [outcome_bind, outcome_ofExcept]
  cases Graft.classify default place props with
  | error fault => rfl
  | ok classified =>
    obtain ⟨decision, advice⟩ := classified
    cases advice with
    | none =>
      simp only [Option.toList_none, List.append_nil]
      rfl
    | some advice => rfl

/-- How far some work has come: the imports it has requested, the configurations it has given, and
how many uses it has skipped. -/
structure Advances (before after : Progress) (added : List (Export × String))
    (given : List (Address × Node)) (passed : Nat) : Prop where
  registry : before.registry.Extends after.registry added
  configs : after.configs = before.configs ++ given
  configured : after.tally.configured = before.tally.configured + given.length
  skipped : after.tally.skipped = before.tally.skipped + passed

theorem Advances.refl (before : Progress) : Advances before before [] [] 0 :=
  ⟨.refl _, by simp, rfl, rfl⟩

theorem Advances.trans {first second third : Progress} {early late : List (Export × String)}
    {some more : List (Address × Node)} {m n : Nat} (head : Advances first second early some m)
    (tail : Advances second third late more n) :
    Advances first third (early ++ late) (some ++ more) (m + n) where
  registry := head.registry.trans tail.registry
  configs := by rw [tail.configs, head.configs, List.append_assoc]
  configured := by rw [tail.configured, head.configured, List.length_append, Nat.add_assoc]
  skipped := by rw [tail.skipped, head.skipped, Nat.add_assoc]

/-- Work that, from a registry of some sort, always succeeds with a result of some sort, and
configures nothing by itself. -/
def Delivers (R : Registry → Prop) (work : Work A) (P : A → Registry → Prop) : Prop :=
  ∀ before : Progress, before.registry.Sound → R before.registry →
    ∃ result after added, work.outcome before = (.ok result, after) ∧
      Advances before after added [] 0 ∧ P result after.registry

namespace Delivers

variable {R : Registry → Prop} {P : A → Registry → Prop} {Q : B → Registry → Prop}

theorem pure {result : A} (holds : ∀ registry, R registry → P result registry) :
    Delivers R (pure result) P :=
  fun before _ holding => ⟨result, before, [], rfl, .refl before, holds _ holding⟩

theorem given {work : Work A} (fact : Prop) (known : ∀ registry, R registry → fact)
    (delivers : fact → Delivers R work P) : Delivers R work P :=
  fun before sound holding => delivers (known _ holding) before sound holding

theorem bind {first : Work A} {next : A → Work B} (head : Delivers R first P)
    (tail : ∀ result, Delivers (P result) (next result) Q) : Delivers R (first >>= next) Q := by
  intro before sound holding
  obtain ⟨middle, between, early, ran, advances, holds⟩ := head before sound holding
  obtain ⟨result, after, late, done, further, good⟩ :=
    tail middle between (advances.registry.sound sound) holds
  exact ⟨result, after, early ++ late, by rw [outcome_bind, ran]; exact done,
    advances.trans further, good⟩

theorem notify (notices : List Notice) : Delivers R (Work.notify notices) fun _ => R :=
  fun _ _ holding => ⟨(), _, [], rfl, ⟨.refl _, by simp, rfl, rfl⟩, holding⟩

theorem warn (warning : String) : Delivers R (Work.warn warning) fun _ => R :=
  fun _ _ holding => ⟨(), _, [], rfl, ⟨.refl _, by simp, rfl, rfl⟩, holding⟩

theorem ofExcept {E : Type} {cause : E → Fault} {made : Except E A} {result : A}
    (success : made = .ok result) (holds : ∀ registry, R registry → P result registry) :
    Delivers R (Work.ofExcept cause made) P := by
  subst success
  exact pure holds

/-- A request keeps what was said of the registry, if more imports keep it. -/
theorem ensure {wanted : Export} (importable : wanted.Importable)
    (kept : ∀ before after added, Registry.Extends before after added → R before → R after) :
    Delivers R (Work.ensure wanted) fun name registry =>
      R registry ∧ isIdentifier name = true ∧ registry.known.lookup wanted = some name := by
  intro before sound holding
  obtain ⟨⟨name, registry, notices⟩, added, met, valid, known, extension⟩ :=
    Registry.ensure_eq_ok sound importable
  refine ⟨name, ⟨before.tally, before.notices ++ notices, registry, before.configs⟩, added, ?_,
    ⟨extension, by simp, rfl, rfl⟩, kept _ _ _ extension holding, valid, known⟩
  simp only [Work.ensure, outcome_bind, outcome_get, outcome_ofExcept, met]
  rfl

theorem classify {default place : String} {props : Option Node} {classified : Classified}
    (known : Graft.classify default place props = .ok classified) :
    Delivers R (Work.classify default place props) fun decision _ => decision = classified.decision := by
  intro before _ _
  rw [outcome_classify, known]
  exact ⟨classified.decision, _, [], rfl, ⟨.refl _, by simp, rfl, rfl⟩, rfl⟩

end Delivers

def IsConfig (config : Node) : Prop :=
  ∃ bindings library : Identifier, config = .configOf bindings library

/-- A configuration that names the plugins of a decision as a registry knows them. -/
def Names (settings : Settings) (decision : Decision) (known : List (Export × String))
    (config : Node) : Prop :=
  ∃ bindings library : Identifier, config = .configOf bindings library ∧
    known.lookup settings.bindings = some bindings.text ∧
      known.lookup (Naming.library settings decision) = some library.text

variable (settings : Settings) (use : Use)

theorem Names.isConfig {settings : Settings} {decision : Decision} {known : List (Export × String)}
    {config : Node} (names : Names settings decision known config) : IsConfig config := by
  obtain ⟨bindings, library, same, -⟩ := names
  exact ⟨bindings, library, same⟩

theorem Names.extend {settings : Settings} {decision : Decision} {before after : Registry}
    {added : List (Export × String)} {config : Node} (names : Names settings decision before.known config)
    (extension : before.Extends after added) : Names settings decision after.known config := by
  obtain ⟨bindings, library, same, first, second⟩ := names
  exact ⟨bindings, library, same, extension.lookup first, extension.lookup second⟩

theorem synthesize_delivers (decision : Decision) :
    Delivers (fun _ => True) (synthesize settings use decision) fun config registry =>
      Names settings decision registry.known config := by
  refine .bind (.ensure settings.bindings_importable fun _ _ _ _ _ => trivial) fun bindings =>
    .bind (.ensure (Naming.library_importable settings decision) ?_) fun library =>
      .bind (.notify _) fun _ => ?_
  next =>
    rintro before after added extension ⟨-, valid, known⟩
    exact ⟨trivial, valid, extension.lookup known⟩
  next =>
    refine .given (isIdentifier bindings = true ∧ isIdentifier library = true)
      (fun registry known => ⟨known.1.2.1, known.2.1⟩) fun valid => ?_
    exact .ofExcept (configDict_pair ⟨bindings, valid.1⟩ ⟨library, valid.2⟩) fun registry known =>
      ⟨_, _, rfl, known.1.2.2, known.2.2⟩

/-- A use that is skipped leaves nothing behind but messages. -/
theorem prepare_skipped (skipped : use.isSkipped = true) (before : Progress) :
    ∃ warnings notices, (prepare settings use).outcome before =
      (.ok none, { before with
        tally := { before.tally with warnings := before.tally.warnings ++ warnings }
        notices := before.notices ++ notices }) := by
  unfold prepare
  split
  next =>
    refine ⟨[], [.debug (use.label ++ ": " ++ use.factory.name ++ " already configured, skipping")], ?_⟩
    simp only [outcome_bind, notify, outcome_modify, outcome_pure, List.append_nil]
  next bare =>
    have unpacks : use.call.hasUnpacking = true := by
      simpa [Use.isSkipped, bare] using skipped
    rw [if_pos unpacks]
    refine ⟨[unpackingAdvice use], [.warning (unpackingAdvice use)], ?_⟩
    simp only [outcome_bind, notify, warn, outcome_modify, outcome_pure]

variable {settings use}

theorem prepare_eq (kept : use.isSkipped = false) : prepare settings use = do
    let decision ← classify settings.defaultType use.label use.call.props?
    return some (← synthesize settings use decision) := by
  simp only [Use.isSkipped, Bool.or_eq_false_iff] at kept
  rw [prepare, kept.1, kept.2]
  rfl

theorem prepare_configured (kept : use.isSkipped = false) {classified : Classified}
    (known : use.classify settings = .ok classified) :
    Delivers (fun _ => True) (prepare settings use) fun found registry =>
      ∃ config, found = some config ∧ Names settings classified.decision registry.known config := by
  rw [prepare_eq kept]
  refine .bind (.classify known) fun decision => .given (decision = classified.decision) (fun _ same => same) ?_
  rintro rfl
  exact .bind (P := fun config registry => Names settings classified.decision registry.known config)
    (fun before sound _ => synthesize_delivers settings use classified.decision before sound trivial)
    fun config => .pure fun _ names => ⟨config, rfl, names⟩

theorem prepare_fault (kept : use.isSkipped = false) {fault : Fault}
    (unknown : use.classify settings = .error fault) (before : Progress) :
    (prepare settings use).outcome before = (.error fault, before) := by
  rw [prepare_eq kept, outcome_bind, outcome_classify, ← Use.classify, unknown]

variable (settings) (rest : List Use) {before : Progress}

theorem prepareAll_skipped (skipped : use.isSkipped = true) :
    ∃ between, Advances before between [] [] 1 ∧
      (prepareAll settings (use :: rest)).outcome before = (prepareAll settings rest).outcome between := by
  obtain ⟨warnings, notices, ran⟩ := prepare_skipped settings use skipped before
  refine ⟨⟨{ before.tally with
      skipped := before.tally.skipped + 1
      warnings := before.tally.warnings ++ warnings }, before.notices ++ notices, before.registry,
    before.configs⟩, ⟨.refl _, by simp, rfl, rfl⟩, ?_⟩
  simp only [prepareAll, outcome_bind, ran, skip, outcome_modify]

/-- Where all uses are skipped, nothing is requested or configured. -/
theorem prepareAll_of_skipped {uses : List Use} (skipped : ∀ use ∈ uses, use.isSkipped = true) :
    ∃ after, (prepareAll settings uses).outcome before = (.ok (), after) ∧
      Advances before after [] [] uses.length := by
  induction uses generalizing before with
  | nil => exact ⟨before, rfl, .refl before⟩
  | cons use rest ih =>
    obtain ⟨between, head, ran⟩ := @prepareAll_skipped settings use rest before (skipped use (by simp))
    obtain ⟨after, done, advances⟩ := @ih between fun other mem => skipped other (by simp [mem])
    refine ⟨after, ran.trans done, ?_⟩
    rw [List.length_cons, Nat.add_comm]
    exact head.trans advances

variable (sound : before.registry.Sound)

include sound

theorem prepareAll_configured (kept : use.isSkipped = false) {classified : Classified}
    (known : use.classify settings = .ok classified) :
    ∃ between added config, Advances before between added [(use.address, config)] 0 ∧
      Names settings classified.decision between.registry.known config ∧
      (prepareAll settings (use :: rest)).outcome before = (prepareAll settings rest).outcome between := by
  obtain ⟨_, between, added, ran, advances, config, rfl, made⟩ :=
    prepare_configured kept known before sound trivial
  refine ⟨⟨{ between.tally with configured := between.tally.configured + 1 }, between.notices,
    between.registry, between.configs ++ [(use.address, config)]⟩, added, config,
    ⟨advances.registry, ?_, ?_, advances.skipped⟩, made, ?_⟩
  next => simp [advances.configs]
  next => simp [advances.configured]
  next => simp only [prepareAll, outcome_bind, ran, configure, outcome_modify]

omit sound in
/-- What some uses are given: a configuration for each that is not skipped, with the known names of
its plugins. -/
structure Configures (settings : Settings) (known : List (Export × String)) (uses : List Use)
    (given : List (Address × Node)) : Prop where
  addresses : given.map (·.1) = (uses.filter (!·.isSkipped)).map Use.address
  named : ∀ entry ∈ given, ∃ use ∈ uses, use.isSkipped = false ∧ use.address = entry.1 ∧
    ∃ classified, use.classify settings = .ok classified ∧
      Names settings classified.decision known entry.2

theorem prepareAll_ok {uses : List Use} (readable : ∀ use ∈ uses, use.isSkipped = false →
      ∃ classified, use.classify settings = .ok classified) :
    ∃ after added given, (prepareAll settings uses).outcome before = (.ok (), after) ∧
      Advances before after added given (uses.filter Use.isSkipped).length ∧
        Configures settings after.registry.known uses given := by
  -- Requests only add to the registry, so what was given early still names what the registry knows.
  induction uses generalizing before with
  | nil => exact ⟨before, [], [], rfl, .refl before, rfl, by simp⟩
  | cons use rest ih =>
    have tail := fun other mem => readable other (List.mem_cons_of_mem _ mem)
    cases kept : use.isSkipped with
    | true =>
      obtain ⟨between, head, ran⟩ := @prepareAll_skipped settings use rest before kept
      obtain ⟨after, late, given, done, advances, configures⟩ :=
        ih (head.registry.sound sound) tail
      refine ⟨after, late, given, ran.trans done, ?_, ?_, fun entry mem => ?_⟩
      next => simpa [kept, Nat.add_comm] using head.trans advances
      next => simpa [kept] using configures.addresses
      next =>
        obtain ⟨other, among, names⟩ := configures.named entry mem
        exact ⟨other, List.mem_cons_of_mem _ among, names⟩
    | false =>
      obtain ⟨classified, known⟩ := readable use List.mem_cons_self kept
      obtain ⟨between, early, config, head, made, ran⟩ :=
        prepareAll_configured settings rest sound kept known
      obtain ⟨after, late, given, done, advances, configures⟩ :=
        ih (head.registry.sound sound) tail
      refine ⟨after, early ++ late, (use.address, config) :: given, ran.trans done, ?_, ?_, ?_⟩
      next => simpa [kept] using head.trans advances
      next => simpa [kept] using configures.addresses
      next =>
        rintro entry (_ | ⟨_, mem⟩)
        next => exact ⟨use, List.mem_cons_self, kept, rfl, classified, known, made.extend advances.registry⟩
        next =>
          obtain ⟨other, among, names⟩ := configures.named entry mem
          exact ⟨other, List.mem_cons_of_mem _ among, names⟩

theorem prepareAll_fault {uses : List Use} (mem : use ∈ uses) (kept : use.isSkipped = false)
    {fault : Fault} (unknown : use.classify settings = .error fault) :
    ∃ cause after, (prepareAll settings uses).outcome before = (.error cause, after) := by
  induction uses generalizing before with
  | nil => exact absurd mem (by simp)
  | cons first rest ih =>
    cases passed : first.isSkipped with
    | true =>
      have later := (List.mem_cons.1 mem).resolve_left (by rintro rfl; simp [kept] at passed)
      obtain ⟨between, head, ran⟩ := @prepareAll_skipped settings first rest before passed
      exact ran ▸ ih (head.registry.sound sound) later
    | false =>
      cases known : first.classify settings with
      | error cause =>
        refine ⟨cause, before, ?_⟩
        simp only [prepareAll, outcome_bind, prepare_fault passed known]
      | ok classified =>
        have later := (List.mem_cons.1 mem).resolve_left (by rintro rfl; simp [unknown] at known)
        obtain ⟨between, _, _, head, _, ran⟩ :=
          prepareAll_configured settings rest sound passed known
        exact ran ▸ ih (head.registry.sound sound) later

end Work

end Graft
