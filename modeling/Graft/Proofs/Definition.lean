import Graft.Definition
import Graft.Proofs.InputType.Soundness
import Graft.Proofs.Scope.Mirror
import Graft.Proofs.Tree.Display
import Mathlib.Data.List.Induction

set_option autoImplicit false

/-!
Whether a setting that is read off a display is the one that the display has at run time. What comes after
its key decides on that: a spread there, or a computed key, may bring in another value.
-/
namespace Graft

open Entry

theorem findNext_eq_ok {key : String} {earlier found : Option Node} {entry : Entry}
    (next : findNext key earlier entry = .ok found) :
    (∃ word value, entry = .keyed word value ∧ word.stringValue? = .ok (some key) ∧ found = some value) ∨
      entry.hasKey key = .ok false ∧ found = earlier := by
  cases entry with
  | spread mapping => exact .inr ⟨rfl, (Except.ok.inj next).symm⟩
  | keyed word value =>
    unfold findNext at next
    obtain ⟨has, tested, next⟩ := bind_eq_ok.1 next
    cases has with
    | true =>
      obtain ⟨text, read, same⟩ := bind_eq_ok.1 tested
      refine .inl ⟨word, value, rfl, ?_, (Except.ok.inj next).symm⟩
      rw [read, beq_iff_eq.1 (Except.ok.inj same)]
    | false => exact .inr ⟨tested, (Except.ok.inj next).symm⟩

/-- A value that is found belongs to the last entry with the key. -/
theorem exists_of_findValue {key : String} {entries : List Entry} {value : Node}
    (found : findValue key entries = .ok (some value)) :
    ∃ first word rest, entries = first ++ .keyed word value :: rest ∧
      word.stringValue? = .ok (some key) ∧ ∀ later ∈ rest, later.hasKey key = .ok false := by
  rw [findValue_eq] at found
  induction entries using List.reverseRecOn with
  | nil => exact absurd found (by simp [pure, Except.pure])
  | append_singleton entries entry ih =>
    rw [List.foldlM_append] at found
    obtain ⟨earlier, before, found⟩ := bind_eq_ok.1 found
    rw [List.foldlM_cons] at found
    obtain ⟨last, next, same⟩ := bind_eq_ok.1 found
    obtain rfl := Except.ok.inj same
    obtain ⟨word, other, rfl, literal, same⟩ | ⟨apart, rfl⟩ := findNext_eq_ok next
    next =>
      obtain rfl := Option.some.inj same
      exact ⟨entries, word, [], rfl, literal, by simp⟩
    next =>
      obtain ⟨first, word, rest, split, literal, later⟩ := ih before
      refine ⟨first, word, rest ++ [entry], by simp [split], literal, ?_⟩
      simpa [or_imp, forall_and] using ⟨later, apart⟩

namespace Definition

/-- The entries of the display that a call of the function is given first. -/
def display? (module : Module) (function : String) : Option (List Entry) := do
  let call ← (callTo? module function).bind Call.ofNode?
  let first ← call.arguments.find? fun argument => argument.keyword.isNone
  if first.isStarred then none else first.value.entries?

theorem lookup_of_display? {module : Module} {function key : String} {entries : List Entry}
    (shown : display? module function = some entries) :
    lookup module function key = do return ⟨← findValue key entries, none⟩ := by
  simp only [display?, Option.bind_eq_bind, Option.bind_eq_some_iff] at shown
  obtain ⟨call, ⟨node, called, is⟩, first, given, shown⟩ := shown
  split at shown
  next => exact absurd shown (by simp)
  next alone =>
    simp only [lookup, called, is, Option.bind_some, valueIn, given, shown, Bool.eq_false_iff.2 alone]

/-- An entry behind a value can give the key another one, and no entry after it must write the key. -/
def MayReplace (key : String) (value : Node) (rest : List Entry) : Prop :=
  ∃ middle entry last worth kept, rest = middle ++ entry :: last ∧ entry.MayWrite (.text key) worth ∧
    (∀ later ∈ last, ¬ later.MustWrite (.text key)) ∧ value.MayBe kept ∧ worth ≠ kept

theorem mayReplace_of_spread {key : String} {value mapping : Node} {middle last : List Entry}
    (free : ∀ later ∈ last, ¬ later.MustWrite (.text key)) :
    MayReplace key value (middle ++ .spread mapping :: last) := by
  obtain ⟨kept, may⟩ := value.exists_mayBe
  -- A spread can give any key any value, so one other value is enough.
  have other : ∃ worth : Worth, worth ≠ kept := by
    cases kept with
    | literal value => exact ⟨.other 0, by simp⟩
    | other id => exact ⟨.text key, by simp [Worth.text]⟩
  obtain ⟨worth, apart⟩ := other
  exact ⟨middle, _, last, worth, kept, rfl, trivial, free, may, apart⟩

/-- What is built on top of a value keeps it in every run, unless it may replace it. -/
theorem builds_keeps_iff {key : String} {value : Node} {rest : List Entry} {start : Dict} :
    (∀ worth dict, value.MayBe worth → Builds rest (start.set (.text key) worth) dict →
      dict (.text key) = some worth) ↔ ¬ MayReplace key value rest := by
  constructor
  next =>
    -- The run writes the other value at that entry, and leaves the key alone after it.
    rintro keeps ⟨middle, entry, last, worth, kept, rfl, may, free, valued, apart⟩
    obtain ⟨between, builds⟩ := exists_builds middle (start.set (.text key) kept)
    obtain ⟨after, writes, here⟩ := exists_writes_of_mayWrite may between
    obtain ⟨dict, ends, same⟩ := exists_builds_of_free free after
    have found := keeps kept dict valued (builds_append.2 ⟨between, builds, after, writes, ends⟩)
    exact apart (Option.some.inj (here.symm.trans (same.symm.trans found)))
  next =>
    intro kept worth dict valued builds
    obtain ⟨same, -⟩ | ⟨middle, entry, last, other, split, free, may, found⟩ :=
      @Builds.lookup (.text key) _ _ _ builds
    next => rw [same, Dict.set_self]
    next =>
      rw [found]
      refine congrArg some (Classical.byContradiction fun apart => kept ?_)
      exact ⟨middle, entry, last, other, worth, split, may, free, valued, apart⟩

def isWritten : Entry → Bool
  | .keyed word _ => word.stringValue?.toOption.any Option.isSome
  | .spread _ => false

theorem not_mayReplace_of_isWritten {key : String} {value : Node} {rest : List Entry}
    (written : ∀ later ∈ rest, isWritten later = true) (apart : ∀ later ∈ rest, later.hasKey key = .ok false) :
    ¬ MayReplace key value rest := by
  rintro ⟨middle, entry, last, worth, kept, rfl, may, -, -, -⟩
  have literal := written entry (by simp)
  have other := apart entry (by simp)
  cases entry with
  | spread mapping => exact absurd literal (by simp [isWritten])
  | keyed word value =>
    obtain ⟨text, read, some⟩ := (Option.any_eq_true ..).1 literal
    obtain ⟨text, rfl⟩ := Option.isSome_iff_exists.1 some
    have read := eq_ok_of_toOption read
    obtain rfl := worth_text_injective ((Node.mayBe_iff_of_stringValue? read _).1 may.1)
    simp [hasKey, read, bind, Except.bind, pure, Except.pure] at other

def isSpreadOver (key : String) : List Entry → Bool
  | [.keyed word _, .spread _] => word.stringValue?.toOption == some (some key)
  | _ => false

theorem exists_of_isSpreadOver {key : String} {entries : List Entry} (spread : isSpreadOver key entries = true) :
    ∃ word value mapping, entries = [.keyed word value, .spread mapping] ∧ word.stringValue? = .ok (some key) := by
  unfold isSpreadOver at spread
  split at spread
  next word value mapping => exact ⟨word, value, mapping, rfl, eq_ok_of_toOption (beq_iff_eq.1 spread)⟩
  next => exact absurd spread (by simp)

end Definition

end Graft
