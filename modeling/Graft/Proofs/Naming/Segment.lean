import Graft.Proofs.Naming
import Graft.Proofs.Settings
import Mathlib.Data.Set.Operations

set_option autoImplicit false

/-!
Segments of types. Whatever the type is called, its segment is a word; words are their own segments, and
so nothing else is.
-/
namespace Graft.Naming

theorem isKeyword_append_underscore (text : String) : isKeyword (text ++ "_") = false := by
  -- None of the keywords ends in one.
  have apart : ∀ keyword ∈ keywords, keyword.toList.getLast? ≠ some '_' := by decide
  simp only [isKeyword, List.contains_eq_mem, decide_eq_false_iff_not]
  exact fun mem => apart _ mem (by simp)

theorem isWord_segment (type : String) : isWord (segment type) = true := by
  have spells : spellsWord (lead (mangle type.toList)) = true :=
    spellsWord_lead fun _ => isAsciiPart_of_mem_mangle
  rw [segment]
  split
  next =>
    -- One more underscore spells a word still, and one that the language does not keep.
    rw [isWord, isKeyword_append_underscore, Bool.not_false, Bool.and_true]
    cases text : lead (mangle type.toList) with
    | nil => exact absurd spells (by simp [text, spellsWord])
    | cons first rest =>
      rw [text, spellsWord, Bool.and_eq_true] at spells
      have line : isAsciiPart '_' = true := by decide
      rw [String.toList_append, String.toList_ofList]
      simp only [spellsWord, List.cons_append, List.all_append, spells, Bool.true_and]
      simp [line]
  next free => simpa [isWord, free] using spells

theorem mangle_eq_self {type : List Char} (parts : ∀ c ∈ type, isAsciiPart c = true) :
    mangle type = type := by
  rw [mangle, List.map_congr_left fun c mem => if_pos (parts c mem)]
  exact List.map_id' type

theorem lead_eq_self {text : List Char} (word : spellsWord text = true) : lead text = text := by
  cases text with
  | nil => exact absurd word (by simp [spellsWord])
  | cons first rest =>
    rw [spellsWord, Bool.and_eq_true] at word
    have letter : first.isDigit = false := isDigit_of_isAsciiStart word.1
    simp [lead, letter]

theorem segment_eq_self {type : String} (word : isWord type = true) : segment type = type := by
  simp only [isWord, Bool.and_eq_true, Bool.not_eq_true'] at word
  have same : lead (mangle type.toList) = type.toList := by
    rw [mangle_eq_self fun c => isAsciiPart_of_mem word.1, lead_eq_self word.1]
  simp [segment, same, word.2]

theorem segment_eq_self_iff {type : String} : segment type = type ↔ isWord type = true :=
  ⟨fun same => same ▸ isWord_segment type, segment_eq_self⟩

theorem segment_segment (type : String) : segment (segment type) = segment type :=
  segment_eq_self (isWord_segment type)

theorem range_segment : Set.range segment = {text | isWord text = true} := by
  ext text
  constructor
  next =>
    rintro ⟨type, rfl⟩
    exact isWord_segment type
  next => exact fun word => ⟨text, segment_eq_self word⟩

end Graft.Naming
