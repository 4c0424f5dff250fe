import Graft.Scope.Survey
import Graft.Tree.Display

set_option autoImplicit false

/-!
What dict displays evaluate to. Literals stand for themselves, all other expressions and spreads for
anything. Entries are written from left to right, so the last one that writes a key decides.
-/
namespace Graft

/-- What an expression stands for at run time. Values that compare equal are one. -/
inductive Worth where
  | literal (value : Literal.Value)
  | other (id : Nat)
  deriving DecidableEq, Repr

def Worth.text (written : String) : Worth := .literal (.text written.toList)

abbrev Dict := Worth → Option Worth

namespace Dict

def empty : Dict := fun _ => none

def set (dict : Dict) (key value : Worth) : Dict := fun wanted =>
  if wanted = key then some value else dict wanted

/-- Takes over all that another mapping holds. -/
def update (dict other : Dict) : Dict := fun wanted => (other wanted).or (dict wanted)

@[simp] theorem set_self (dict : Dict) (key value : Worth) : dict.set key value key = some value := by
  simp [set]

theorem set_of_ne (dict : Dict) {key wanted : Worth} (other : key ≠ wanted) (value : Worth) :
    dict.set key value wanted = dict wanted := by
  simp [set, other.symm]

@[simp] theorem update_empty (dict : Dict) : dict.update empty = dict := by
  funext wanted
  simp [update, empty]

end Dict

namespace Node

/-- Constants that are no text. -/
def isTextless : Node → Bool
  | .name _ id => constants.contains id.text
  | .branch .number _ _ => true
  | .branch .ellipsis _ _ => true
  | _ => false

/-- What a node may evaluate to. -/
def MayBe (node : Node) (worth : Worth) : Prop :=
  match Scope.valueOf? node with
  | .ok (some value) => worth = .literal value
  | _ => node.isTextless = true → ∃ id, worth = .other id

theorem exists_mayBe (node : Node) : ∃ worth, node.MayBe worth := by
  unfold MayBe
  split
  next value _ => exact ⟨.literal value, rfl⟩
  next => exact ⟨.other 0, fun _ => ⟨0, rfl⟩⟩

theorem exists_mayBe_of_not_forced {node : Node} {wanted : Worth}
    (free : ¬ ∀ worth, node.MayBe worth → worth = wanted) : ∃ worth, node.MayBe worth ∧ worth ≠ wanted := by
  simpa using free

theorem valueOf?_of_stringValue? {node : Node} {written : String}
    (read : node.stringValue? = .ok (some written)) :
    Scope.valueOf? node = .ok (some (.text written.toList)) := by
  unfold stringValue? at read
  split at read
  next spelled =>
    cases decoded : Literal.decode spelled with
    | error fault => simp [decoded] at read
    | ok value =>
      cases value with
      | bytes values => simp [decoded] at read
      | text chars =>
        simp only [decoded, Except.ok.injEq, Option.some.injEq] at read
        simp [Scope.valueOf?, decoded, ← read]
  next => exact absurd read (by simp)

theorem mayBe_iff_of_stringValue? {node : Node} {written : String}
    (read : node.stringValue? = .ok (some written)) (worth : Worth) :
    node.MayBe worth ↔ worth = .text written := by
  unfold MayBe
  rw [valueOf?_of_stringValue? read]
  rfl

end Node

namespace Entry

/-- An entry of a display makes one dict of another. -/
def Writes : Entry → Dict → Dict → Prop
  | .keyed key value, before, after => ∃ a b, key.MayBe a ∧ value.MayBe b ∧ after = before.set a b
  | .spread _, before, after => ∃ other, after = before.update other

/-- The entries of a display, from left to right. -/
def Builds : List Entry → Dict → Dict → Prop
  | [], before, after => after = before
  | entry :: rest, before, after => ∃ between, entry.Writes before between ∧ Builds rest between after

/-- A display may evaluate to the dict. -/
def Evaluates (entries : List Entry) (dict : Dict) : Prop := Builds entries .empty dict

/-- The entry can give the key this value. -/
def MayWrite (wanted worth : Worth) : Entry → Prop
  | .keyed key value => key.MayBe wanted ∧ value.MayBe worth
  | .spread _ => True

/-- The entry gives the key some value in every run. -/
def MustWrite (wanted : Worth) : Entry → Prop
  | .keyed key _ => ∀ worth, key.MayBe worth → worth = wanted
  | .spread _ => False

variable {wanted worth : Worth} {entry : Entry} {entries : List Entry} {before after : Dict}

theorem builds_append {first rest : List Entry} :
    Builds (first ++ rest) before after ↔ ∃ between, Builds first before between ∧ Builds rest between after := by
  induction first generalizing before with
  | nil => simp [Builds]
  | cons entry first ih =>
    simp only [List.cons_append, Builds, ih]
    constructor
    next =>
      rintro ⟨one, head, two, tail, last⟩
      exact ⟨two, ⟨one, head, tail⟩, last⟩
    next =>
      rintro ⟨two, ⟨one, head, tail⟩, last⟩
      exact ⟨one, head, two, tail, last⟩

/-- One entry either leaves a key alone, or gives it a value that it can give it. -/
theorem Writes.lookup (writes : entry.Writes before after) :
    after wanted = before wanted ∧ ¬ entry.MustWrite wanted ∨
      ∃ worth, entry.MayWrite wanted worth ∧ after wanted = some worth := by
  cases entry with
  | keyed key value =>
    obtain ⟨a, b, spelled, valued, rfl⟩ := writes
    by_cases here : a = wanted
    next =>
      subst here
      exact .inr ⟨b, ⟨spelled, valued⟩, Dict.set_self before a b⟩
    next => exact .inl ⟨Dict.set_of_ne before here b, fun must => here (must a spelled)⟩
  | spread value =>
    obtain ⟨other, rfl⟩ := writes
    cases found : other wanted with
    | none => exact .inl ⟨by simp [Dict.update, found], id⟩
    | some worth => exact .inr ⟨worth, trivial, by simp [Dict.update, found]⟩

/-- The last entry that writes a key decides on its value. -/
theorem Builds.lookup (builds : Builds entries before after) :
    (after wanted = before wanted ∧ ∀ entry ∈ entries, ¬ entry.MustWrite wanted) ∨
      ∃ first entry rest worth, entries = first ++ entry :: rest ∧
        (∀ later ∈ rest, ¬ later.MustWrite wanted) ∧ entry.MayWrite wanted worth ∧
          after wanted = some worth := by
  induction entries generalizing before with
  | nil => exact .inl ⟨congrFun builds wanted, by simp⟩
  | cons head tail ih =>
    obtain ⟨between, writes, builds⟩ := builds
    obtain ⟨kept, free⟩ | ⟨first, entry, rest, worth, rfl, later, may, found⟩ := ih builds
    next =>
      obtain ⟨same, idle⟩ | ⟨worth, may, found⟩ := @Writes.lookup wanted _ _ _ writes
      next => exact .inl ⟨kept.trans same, by simpa using ⟨idle, free⟩⟩
      next => exact .inr ⟨[], head, tail, worth, rfl, free, may, kept.trans found⟩
    next => exact .inr ⟨head :: first, entry, rest, worth, rfl, later, may, found⟩

theorem exists_writes (entry : Entry) (before : Dict) : ∃ after, entry.Writes before after := by
  cases entry with
  | keyed key value =>
    obtain ⟨a, spelled⟩ := key.exists_mayBe
    obtain ⟨b, valued⟩ := value.exists_mayBe
    exact ⟨_, a, b, spelled, valued, rfl⟩
  | spread value => exact ⟨_, .empty, rfl⟩

theorem exists_builds (entries : List Entry) (before : Dict) : ∃ after, Builds entries before after := by
  induction entries generalizing before with
  | nil => exact ⟨before, rfl⟩
  | cons entry rest ih =>
    obtain ⟨between, writes⟩ := exists_writes entry before
    obtain ⟨after, builds⟩ := ih between
    exact ⟨after, between, writes, builds⟩

theorem exists_writes_of_mayWrite (may : entry.MayWrite wanted worth) (before : Dict) :
    ∃ after, entry.Writes before after ∧ after wanted = some worth := by
  cases entry with
  | keyed key value => exact ⟨_, ⟨wanted, worth, may.1, may.2, rfl⟩, Dict.set_self before wanted worth⟩
  | spread value =>
    exact ⟨_, ⟨Dict.empty.set wanted worth, rfl⟩, by simp [Dict.update]⟩

/-- Entries that need not write a key can leave it alone. -/
theorem exists_builds_of_free (free : ∀ entry ∈ entries, ¬ entry.MustWrite wanted) (before : Dict) :
    ∃ after, Builds entries before after ∧ after wanted = before wanted := by
  induction entries generalizing before with
  | nil => exact ⟨before, rfl, rfl⟩
  | cons entry rest ih =>
    have idle := free entry List.mem_cons_self
    obtain ⟨between, writes, same⟩ :
        ∃ between, entry.Writes before between ∧ between wanted = before wanted := by
      cases entry with
      | keyed key value =>
        obtain ⟨a, spelled, apart⟩ := Node.exists_mayBe_of_not_forced idle
        obtain ⟨b, valued⟩ := value.exists_mayBe
        exact ⟨_, ⟨a, b, spelled, valued, rfl⟩, Dict.set_of_ne before apart b⟩
      | spread value => exact ⟨_, ⟨.empty, rfl⟩, by simp⟩
    obtain ⟨after, builds, kept⟩ := ih (fun other mem => free other (List.mem_cons_of_mem _ mem)) between
    exact ⟨after, ⟨between, writes, builds⟩, kept.trans same⟩

/-- Any value that an entry can give, with nothing after it that must write, is the value in some
run. -/
theorem exists_evaluates {first rest : List Entry} (may : entry.MayWrite wanted worth)
    (later : ∀ other ∈ rest, ¬ other.MustWrite wanted) :
    ∃ dict, Evaluates (first ++ entry :: rest) dict ∧ dict wanted = some worth := by
  obtain ⟨start, begins⟩ := exists_builds first .empty
  obtain ⟨middle, writes, here⟩ := exists_writes_of_mayWrite may start
  obtain ⟨dict, ends, kept⟩ := exists_builds_of_free later middle
  exact ⟨dict, builds_append.2 ⟨start, begins, middle, writes, ends⟩, kept.trans here⟩

end Entry

end Graft
