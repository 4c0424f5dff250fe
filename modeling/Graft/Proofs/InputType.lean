import Graft.InputType
import Graft.Proofs.Outcome

set_option autoImplicit false

/-!
When the input type of a call can be read: all keys of its properties have to be readable, and the
type that is written last, unless a spread hides it.
-/
namespace Graft

/-- A node whose text can be read, if it is a literal. -/
def Node.IsReadable (node : Node) : Prop := ∃ text, node.stringValue? = .ok text

theorem Node.not_isReadable_iff {node : Node} :
    ¬ node.IsReadable ↔ ∃ fault, node.stringValue? = .error fault := by
  unfold IsReadable
  cases node.stringValue? <;> simp

namespace Entry

def HasReadableKey : Entry → Prop
  | .keyed key _ => key.IsReadable
  | .spread _ => True

/-- Whether an entry writes a type down. -/
def isType : Entry → Bool
  | .keyed key _ => key.stringValue?.toOption == some (some typeKey)
  | .spread _ => false

/-- The value of the last type, if no spread comes after it. -/
def typeAfter (found : Option Node) : Entry → Option Node
  | .spread _ => none
  | .keyed key value => if (keyed key value).isType then some value else found

def lastType? (entries : List Entry) : Option Node := entries.foldl typeAfter none

structure AreReadable (entries : List Entry) : Prop where
  keys : ∀ entry ∈ entries, entry.HasReadableKey
  type : ∀ value, lastType? entries = some value → value.IsReadable

theorem hasKey_of_readable {entry : Entry} (readable : entry.HasReadableKey) :
    entry.hasKey typeKey = .ok entry.isType := by
  cases entry with
  | spread value => rfl
  | keyed key value =>
    obtain ⟨text, read⟩ := readable
    simp only [hasKey, isType, read]
    cases text <;> rfl

theorem hasKey_of_unreadable {entry : Entry} (unreadable : ¬ entry.HasReadableKey) (word : String) :
    ∃ fault, entry.hasKey word = .error fault := by
  cases entry with
  | spread value => exact absurd trivial unreadable
  | keyed key value =>
    obtain ⟨fault, read⟩ := Node.not_isReadable_iff.1 unreadable
    exact ⟨fault, by rw [hasKey, read]; rfl⟩

end Entry

/-- One step of the search for a key. -/
def findNext (word : String) (found : Option Node) (entry : Entry) : Except Fault (Option Node) := do
  match entry, ← entry.hasKey word with
  | .keyed _ value, true => return some value
  | _, _ => return found

/-- One step of the search for a spread after the last type. -/
def hideNext (hidden : Bool) (entry : Entry) : Except Fault Bool := do
  match entry with
  | .spread _ => return true
  | .keyed _ _ => if ← entry.hasKey typeKey then return false else return hidden

theorem findValue_eq (word : String) (entries : List Entry) :
    findValue word entries = entries.foldlM (findNext word) none := rfl

theorem spreadAfterType_eq (entries : List Entry) :
    spreadAfterType entries = entries.foldlM hideNext false := rfl

open Entry

/-- A step of both passes over a display. `hidden` says whether a spread has come after the last
type. -/
theorem next_of_readable {entry : Entry} (readable : entry.HasReadableKey) (found : Option Node)
    (hidden : Bool) :
    ∃ found' hidden', findNext typeKey found entry = .ok found' ∧ hideNext hidden entry = .ok hidden' ∧
      typeAfter (if hidden then none else found) entry = if hidden' then none else found' := by
  have key := hasKey_of_readable readable
  cases entry with
  | spread value => exact ⟨found, true, rfl, rfl, rfl⟩
  | keyed node value =>
    cases written : (Entry.keyed node value).isType with
    | true =>
      rw [written] at key
      exact ⟨some value, false, by rw [findNext, key]; rfl, by rw [hideNext, key]; rfl,
        by simp [typeAfter, written]⟩
    | false =>
      rw [written] at key
      exact ⟨found, hidden, by rw [findNext, key]; rfl, by rw [hideNext, key]; rfl,
        by simp [typeAfter, written]⟩

/-- The two passes over a display find the last type together. -/
theorem passes_of_readable {entries : List Entry} (readable : ∀ entry ∈ entries, entry.HasReadableKey) :
    ∃ found hidden, findValue typeKey entries = .ok found ∧ spreadAfterType entries = .ok hidden ∧
      lastType? entries = if hidden then none else found := by
  suffices ∀ found hidden, ∃ found' hidden', entries.foldlM (findNext typeKey) found = .ok found' ∧
      entries.foldlM hideNext hidden = .ok hidden' ∧
      entries.foldl typeAfter (if hidden then none else found) = if hidden' then none else found' from
    this none false
  induction entries with
  | nil => exact fun found hidden => ⟨found, hidden, rfl, rfl, rfl⟩
  | cons entry rest ih =>
    intro found hidden
    obtain ⟨next, covered, first, second, both⟩ :=
      next_of_readable (readable entry List.mem_cons_self) found hidden
    obtain ⟨last, ending, after, later, whole⟩ :=
      ih (fun other mem => readable other (List.mem_cons_of_mem _ mem)) next covered
    refine ⟨last, ending, ?_, ?_, ?_⟩
    next => rw [List.foldlM_cons, first]; exact after
    next => rw [List.foldlM_cons, second]; exact later
    next => rw [List.foldl_cons, both]; exact whole

theorem findValue_of_unreadable {entries : List Entry} {entry : Entry} (mem : entry ∈ entries)
    (unreadable : ¬ entry.HasReadableKey) (word : String) :
    ∃ fault, findValue word entries = .error fault := by
  suffices ∀ found, ∃ fault, entries.foldlM (findNext word) found = .error fault from this none
  induction entries with
  | nil => exact absurd mem (by simp)
  | cons first rest ih =>
    intro found
    rw [List.foldlM_cons]
    by_cases readable : first.HasReadableKey
    next =>
      have later := (List.mem_cons.1 mem).resolve_left (by rintro rfl; exact unreadable readable)
      cases findNext word found first with
      | error fault => exact ⟨fault, rfl⟩
      | ok next => exact ih later next
    next =>
      obtain ⟨fault, key⟩ := hasKey_of_unreadable readable word
      exact ⟨fault, by rw [findNext, key]; rfl⟩

theorem literalType?_ok_iff (default : String) (entries : List Entry) :
    (∃ type, literalType? default entries = .ok type) ↔ AreReadable entries := by
  constructor
  next =>
    rintro ⟨type, read⟩
    -- Every key is read for the value, whatever is found in the end.
    have keys : ∀ entry ∈ entries, entry.HasReadableKey := by
      refine fun entry mem => Classical.byContradiction fun unreadable => ?_
      obtain ⟨fault, failed⟩ := findValue_of_unreadable mem unreadable typeKey
      rw [literalType?, failed] at read
      exact absurd read (by simp [bind, Except.bind])
    refine ⟨keys, fun value last => ?_⟩
    obtain ⟨found, hidden, first, second, whole⟩ := passes_of_readable keys
    rw [literalType?, first, second] at read
    rw [whole] at last
    cases hidden with
    | true => exact absurd last (by simp)
    | false =>
      obtain rfl : found = some value := by simpa using last
      exact ⟨type, read⟩
  next =>
    rintro ⟨keys, type⟩
    obtain ⟨found, hidden, first, second, whole⟩ := passes_of_readable keys
    rw [literalType?, first, second]
    cases hidden with
    | true => exact ⟨none, rfl⟩
    | false =>
      cases found with
      | none => exact ⟨some default, rfl⟩
      | some value => exact type value (by simpa using whole)

/-- The type of a call can be read unless its properties are a display with an unreadable literal in
one of its keys, or in the type that counts. -/
theorem classify_ok_iff (default place : String) (props : Option Node) :
    (∃ classified, classify default place props = .ok classified) ↔
      ∀ node ∈ props, ∀ entries ∈ node.entries?, AreReadable entries := by
  cases props with
  | none => exact ⟨fun _ => by simp, fun _ => ⟨_, rfl⟩⟩
  | some node =>
    simp only [Option.mem_def, Option.some.injEq, forall_eq']
    cases shown : node.entries? with
    | none => exact ⟨fun _ => by simp, fun _ => ⟨_, by simp only [classify, shown]; rfl⟩⟩
    | some entries =>
      simp only [Option.some.injEq, forall_eq', ← literalType?_ok_iff default]
      simp only [classify, shown]
      cases literalType? default entries with
      | error fault => simp [bind, Except.bind]
      | ok type => cases type <;> exact ⟨fun _ => ⟨_, rfl⟩, fun _ => ⟨_, rfl⟩⟩

end Graft
