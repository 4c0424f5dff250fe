import Graft.Module
import Graft.Proofs.InputType
import Graft.Proofs.Tree.Display
import Mathlib.Data.List.Induction

set_option autoImplicit false

/-!
Whether the type that a display writes down is the type it has at run time. The last decisive entry, a
spread or a literal type, settles what is read off the display; only a computed key can make a run of
it differ.
-/
namespace Graft

namespace Entry

/-- An entry that may bring a type, as far as literal keys tell. -/
def isDecisive : Entry → Bool
  | .spread _ => true
  | .keyed key value => (keyed key value).isType

def lastDecisive? (entries : List Entry) : Option Entry := entries.reverse.find? isDecisive

theorem lastDecisive?_concat (entries : List Entry) (entry : Entry) : lastDecisive? (entries ++ [entry]) =
    if entry.isDecisive then some entry else lastDecisive? entries := by
  unfold lastDecisive?
  rw [List.reverse_append, List.reverse_singleton, List.singleton_append, List.find?_cons]
  split <;> simp [*]

/-- A decisive entry is the last one, or the last one comes after it. -/
theorem lastDecisive?_of_isDecisive {first rest : List Entry} {entry : Entry}
    (decisive : entry.isDecisive = true) : lastDecisive? (first ++ entry :: rest) = some entry ∨
      ∃ later ∈ rest, lastDecisive? (first ++ entry :: rest) = some later := by
  unfold lastDecisive?
  rw [List.reverse_append, List.reverse_cons, List.append_assoc, List.find?_append]
  cases found : rest.reverse.find? isDecisive with
  | none => exact .inl (by simp [decisive])
  | some later =>
    exact .inr ⟨later, List.mem_reverse.1 (List.mem_of_find?_eq_some found), rfl⟩

theorem mem_of_lastDecisive? {entries : List Entry} {entry : Entry}
    (found : lastDecisive? entries = some entry) : entry ∈ entries :=
  List.mem_reverse.1 (List.mem_of_find?_eq_some found)

theorem isDecisive_of_lastDecisive? {entries : List Entry} {entry : Entry}
    (found : lastDecisive? entries = some entry) : entry.isDecisive = true := by
  unfold lastDecisive? at found
  exact List.find?_some found

def Settles : Option Entry → Option Node → Bool → Prop
  | none, found, hidden => found = none ∧ hidden = false
  | some (.spread _), _, hidden => hidden = true
  | some (.keyed _ value), found, hidden => found = some value ∧ hidden = false

theorem passes_of_lastDecisive? {entries : List Entry}
    (readable : ∀ entry ∈ entries, entry.HasReadableKey) :
    ∃ found hidden, findValue typeKey entries = .ok found ∧ spreadAfterType entries = .ok hidden ∧
      Settles (lastDecisive? entries) found hidden := by
  induction entries using List.reverseRecOn with
  | nil => exact ⟨none, false, rfl, rfl, rfl, rfl⟩
  | append_singleton entries entry ih =>
    obtain ⟨found, hidden, first, second, settles⟩ :=
      ih fun other mem => readable other (List.mem_append_left _ mem)
    have key := hasKey_of_readable (readable entry (by simp))
    rw [findValue_eq] at first
    rw [spreadAfterType_eq] at second
    simp only [findValue_eq, spreadAfterType_eq, List.foldlM_append, first, second, lastDecisive?_concat]
    -- A decisive entry settles both passes anew, and any other leaves them as they were.
    cases entry with
    | spread value => exact ⟨found, true, rfl, rfl, rfl⟩
    | keyed node value =>
      cases written : (Entry.keyed node value).isType with
      | true =>
        rw [written] at key
        refine ⟨some value, false, ?_, ?_, ?_⟩
        next => simp [bind, Except.bind, findNext, key, pure, Except.pure]
        next => simp [bind, Except.bind, hideNext, key, pure, Except.pure]
        next => simp [isDecisive, written, Settles]
      | false =>
        rw [written] at key
        refine ⟨found, hidden, ?_, ?_, ?_⟩
        next => simp [bind, Except.bind, findNext, key, pure, Except.pure]
        next => simp [bind, Except.bind, hideNext, key, pure, Except.pure]
        next => simpa [isDecisive, written] using settles

/-- Where a display has a static type, that is the default and nothing is decisive, or a literal type
is the last decisive entry. -/
theorem lastDecisive?_of_literalType? {default type : String} {entries : List Entry}
    (read : literalType? default entries = .ok (some type)) :
    lastDecisive? entries = none ∧ type = default ∨
      ∃ key value, lastDecisive? entries = some (.keyed key value) ∧ value.stringValue? = .ok (some type) := by
  have readable := ((literalType?_ok_iff default entries).1 ⟨_, read⟩).keys
  obtain ⟨found, hidden, first, second, settles⟩ := passes_of_lastDecisive? readable
  simp only [literalType?, first, second, bind, Except.bind, pure, Except.pure] at read
  cases last : lastDecisive? entries with
  | none =>
    rw [last] at settles
    obtain ⟨rfl, rfl⟩ := settles
    exact .inl ⟨rfl, by simpa using read.symm⟩
  | some entry =>
    rw [last] at settles
    cases entry with
    | spread mapping =>
      obtain rfl := settles
      exact absurd read (by simp)
    | keyed key value =>
      obtain ⟨rfl, rfl⟩ := settles
      exact .inr ⟨key, value, rfl, by simpa using read⟩

/-- The key has to be computed: it is no literal of text. -/
def IsComputed (key : Node) : Prop := key.stringValue? = .ok none

/-- A computed key can bring in another type, and no entry after it must write one. -/
def MayOverride (entries : List Entry) (type : String) : Prop :=
  ∃ first key value rest worth, entries = first ++ .keyed key value :: rest ∧ IsComputed key ∧
    key.MayBe (.text typeKey) ∧ value.MayBe worth ∧ worth ≠ .text type ∧
      ∀ later ∈ rest, ¬ later.MustWrite (.text typeKey)

theorem mustWrite_of_isType {entry : Entry} (typed : entry.isType = true) :
    entry.MustWrite (.text typeKey) := by
  cases entry with
  | spread value => exact absurd typed (by simp [isType])
  | keyed key value =>
    have read : key.stringValue? = .ok (some typeKey) := by
      cases spelled : key.stringValue? with
      | error fault => simp [isType, spelled, Except.toOption] at typed
      | ok text => simpa [isType, spelled, Except.toOption] using typed
    exact fun worth may => (Node.mayBe_iff_of_stringValue? read worth).1 may

theorem worth_text_injective {first second : String} (same : Worth.text first = .text second) :
    first = second := by
  simpa [Worth.text, String.toList_inj] using same

end Entry

open Entry

variable {default place type : String} {props : Node} {entries : List Entry} {advice : Option String}

theorem literalType?_of_classify (shown : props.entries? = some entries)
    (static : classify default place (some props) = .ok ⟨.static type, advice⟩) :
    literalType? default entries = .ok (some type) := by
  simp only [classify, shown] at static
  obtain ⟨found, read, static⟩ := bind_eq_ok.1 static
  cases found with
  | none => exact absurd (Except.ok.inj static) (by simp)
  | some found =>
    have same : Decision.static found = .static type := congrArg Classified.decision (Except.ok.inj static)
    rw [read, Decision.static.inj same]

/-- The value that decides on the type in some run is the static type, unless a computed key brings in
another one. -/
theorem worth_of_mayWrite (read : literalType? default entries = .ok (some type))
    (kept : ¬ MayOverride entries type) {first rest : List Entry} {entry : Entry} {worth : Worth}
    (split : entries = first ++ entry :: rest) (later : ∀ other ∈ rest, ¬ other.MustWrite (.text typeKey))
    (may : entry.MayWrite (.text typeKey) worth) : worth = .text type := by
  have readable := ((literalType?_ok_iff default entries).1 ⟨_, read⟩).keys
  -- A decisive entry with no literal type after it is the last decisive one.
  have decides (decisive : entry.isDecisive = true) :
      ∃ key value, entry = .keyed key value ∧ value.stringValue? = .ok (some type) := by
    have last := @lastDecisive?_of_isDecisive first rest entry decisive
    rw [← split] at last
    obtain ⟨none, -⟩ | ⟨key, value, found, literal⟩ := lastDecisive?_of_literalType? read
    next => simp [none] at last
    next =>
      rw [found] at last
      obtain here | ⟨other, mem, same⟩ := last
      next => exact ⟨key, value, (Option.some.inj here).symm, literal⟩
      next =>
        obtain rfl := Option.some.inj same
        have typed : (Entry.keyed key value).isType = true := isDecisive_of_lastDecisive? found
        exact absurd (mustWrite_of_isType typed) (later _ mem)
  cases entry with
  | spread value =>
    obtain ⟨key, value, same, -⟩ := decides rfl
    exact absurd same (by simp)
  | keyed key value =>
    obtain ⟨text, spelled⟩ : key.IsReadable := readable (.keyed key value) (by simp [split])
    cases text with
    | none =>
      refine Classical.byContradiction fun other => kept ?_
      exact ⟨first, key, value, rest, worth, split, spelled, may.1, may.2, other, later⟩
    | some text =>
      obtain rfl : typeKey = text :=
        worth_text_injective ((Node.mayBe_iff_of_stringValue? spelled _).1 may.1)
      obtain ⟨_, _, same, literal⟩ := decides (by simp [isDecisive, isType, spelled, Except.toOption])
      obtain ⟨-, rfl⟩ := Entry.keyed.inj same
      exact (Node.mayBe_iff_of_stringValue? literal worth).1 may.2

def hasLiteralKey : Entry → Bool
  | .keyed key _ => key.stringValue?.toOption.any Option.isSome
  | .spread _ => true

def isOverridden (written : String) : List Entry → Bool
  | [_, .keyed (.name _ id) value] =>
    !Node.constants.contains id.text && value.stringValue?.toOption == some (some written)
  | _ => false

theorem exists_of_isOverridden {written : String} {entries : List Entry}
    (overridden : isOverridden written entries = true) :
    ∃ first entry, entries = [first, entry] ∧ ∀ key, entry.MayWrite key (.text written) := by
  unfold isOverridden at overridden
  split at overridden
  next first parens id value =>
    simp only [Bool.and_eq_true, Bool.not_eq_true', beq_iff_eq] at overridden
    obtain ⟨plain, read⟩ := overridden
    refine ⟨first, _, rfl, fun key => ⟨fun textless => ?_, ?_⟩⟩
    next =>
      -- A variable may be any key, since it is no constant.
      have constant : Node.constants.contains id.text = true := textless
      exact absurd (constant.symm.trans plain) (by simp)
    next => exact (Node.mayBe_iff_of_stringValue? (eq_ok_of_toOption read) _).2 rfl
  next => exact absurd overridden (by simp)

end Graft
