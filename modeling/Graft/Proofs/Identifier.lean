import Graft.Dotted

set_option autoImplicit false

/-!
Words are identifiers, and texts joined by points have the segments of both.
-/
namespace Graft

theorem Identifier.ofString_eq_ok {text : String} (valid : isIdentifier text = true) :
    Identifier.ofString text = .ok ⟨text, valid⟩ := by
  simp [Identifier.ofString, valid]

theorem Identifier.text_of_ofString {text : String} {id : Identifier}
    (spelled : Identifier.ofString text = .ok id) : id.text = text := by
  unfold Identifier.ofString at spelled
  split at spelled
  next => exact congrArg Identifier.text (Except.ok.inj spelled) ▸ rfl
  next => exact absurd spelled (by simp)

theorem ascii_of_isAlphanum {c : Char} (h : c.isAlphanum = true) : c.toNat < 128 := by
  delta Char.isAlphanum Char.isAlpha Char.isUpper Char.isLower Char.isDigit at h
  simp only [Bool.or_eq_true, Bool.and_eq_true, decide_eq_true_eq, ge_iff_le, UInt32.le_iff_toNat_le] at h
  simp only [Char.toNat]
  obtain (⟨-, h⟩ | ⟨-, h⟩) | ⟨-, h⟩ := h <;>
    exact Nat.lt_of_le_of_lt h (by decide)

theorem le_of_isAlphanum {c : Char} (h : c.isAlphanum = true) : 48 ≤ c.toNat := by
  delta Char.isAlphanum Char.isAlpha Char.isUpper Char.isLower Char.isDigit at h
  simp only [Bool.or_eq_true, Bool.and_eq_true, decide_eq_true_eq, ge_iff_le, UInt32.le_iff_toNat_le] at h
  simp only [Char.toNat]
  obtain (⟨h, -⟩ | ⟨h, -⟩) | ⟨h, -⟩ := h <;>
    exact Nat.le_trans (by decide) h

theorem isPart_of_isAsciiPart {c : Char} (part : isAsciiPart c = true) :
    Text.Letter.isPart c = true := by
  have small : c.toNat < 128 := by
    simp only [isAsciiPart, Bool.or_eq_true, beq_iff_eq] at part
    obtain h | rfl := part
    next => exact ascii_of_isAlphanum h
    next => decide
  simpa [Text.Letter.isPart, small, isAsciiPart] using part

theorem isStart_of_isAsciiStart {c : Char} (start : isAsciiStart c = true) :
    Text.Letter.isStart c = true := by
  have small : c.toNat < 128 := by
    simp only [isAsciiStart, Bool.or_eq_true, beq_iff_eq] at start
    obtain h | rfl := start
    next => exact ascii_of_isAlphanum (by simp [Char.isAlphanum, h])
    next => decide
  simpa [Text.Letter.isStart, small, isAsciiStart] using start

theorem isAsciiPart_of_isAsciiStart {c : Char} (start : isAsciiStart c = true) :
    isAsciiPart c = true := by
  simp only [isAsciiStart, isAsciiPart, Char.isAlphanum, Bool.or_eq_true] at start ⊢
  exact start.imp_left .inl

theorem isAsciiPart_of_mem {text : List Char} (word : spellsWord text = true) {c : Char}
    (mem : c ∈ text) : isAsciiPart c = true := by
  cases text with
  | nil => exact absurd mem (by simp)
  | cons first rest =>
    simp only [spellsWord, Bool.and_eq_true, List.all_eq_true] at word
    obtain rfl | mem := List.mem_cons.1 mem
    next => exact isAsciiPart_of_isAsciiStart word.1
    next => exact word.2 c mem

theorem isDigit_of_isAsciiStart {c : Char} (start : isAsciiStart c = true) : c.isDigit = false := by
  simp only [isAsciiStart, Bool.or_eq_true, beq_iff_eq] at start
  obtain letter | rfl := start
  next =>
    delta Char.isAlpha Char.isUpper Char.isLower at letter
    simp only [Bool.or_eq_true, Bool.and_eq_true, decide_eq_true_eq, ge_iff_le,
      UInt32.le_iff_toNat_le] at letter
    simp only [Char.isDigit, Bool.and_eq_false_iff, decide_eq_false_iff_not, ge_iff_le,
      UInt32.le_iff_toNat_le]
    have nine : '9'.val.toNat = 57 := rfl
    have upper : 'A'.val.toNat = 65 := rfl
    have lower : 'a'.val.toNat = 97 := rfl
    omega
  next => decide

theorem spellsIdentifier_of_spellsWord {text : List Char} (word : spellsWord text = true) :
    spellsIdentifier text = true := by
  cases text with
  | nil => exact absurd word (by simp [spellsWord])
  | cons first rest =>
    simp only [spellsWord, Bool.and_eq_true, List.all_eq_true] at word
    simp only [spellsIdentifier, Bool.and_eq_true, List.all_eq_true]
    exact ⟨isStart_of_isAsciiStart word.1, fun c mem => isPart_of_isAsciiPart (word.2 c mem)⟩

theorem isIdentifier_of_isWord {text : String} (word : isWord text = true) :
    isIdentifier text = true := by
  simp only [isWord, Bool.and_eq_true] at word
  exact spellsIdentifier_of_spellsWord word.1

theorem Word.isIdentifier (word : Word) : isIdentifier word.text = true :=
  isIdentifier_of_isWord word.valid

theorem Word.isKeyword (word : Word) : isKeyword word.text = false := by
  have valid := word.valid
  simp only [isWord, Bool.and_eq_true, Bool.not_eq_true'] at valid
  exact valid.2

theorem spellsIdentifier_append {text more : List Char} (valid : spellsIdentifier text = true)
    (parts : ∀ c ∈ more, Text.Letter.isPart c = true) : spellsIdentifier (text ++ more) = true := by
  cases text with
  | nil => exact absurd valid (by simp [spellsIdentifier])
  | cons first rest =>
    simp only [spellsIdentifier, Bool.and_eq_true, List.all_eq_true] at valid
    simp only [List.cons_append, spellsIdentifier, Bool.and_eq_true, List.all_eq_true,
      List.mem_append]
    exact ⟨valid.1, fun c mem => mem.elim (valid.2 c) (parts c)⟩

theorem isPart_of_mem {text : List Char} (valid : spellsIdentifier text = true) {c : Char}
    (mem : c ∈ text) : Text.Letter.isPart c = true := by
  cases text with
  | nil => exact absurd mem (by simp)
  | cons first rest =>
    simp only [spellsIdentifier, Bool.and_eq_true, List.all_eq_true] at valid
    obtain rfl | mem := List.mem_cons.1 mem
    next => exact Text.Letter.isPart_of_isStart _ valid.1
    next => exact valid.2 c mem

theorem point_not_mem {text : List Char} (valid : spellsIdentifier text = true) : '.' ∉ text :=
  fun mem => absurd (isPart_of_mem valid mem) (by decide)

theorem Word.not_mem (word : Word) {c : Char} (foreign : Text.Letter.isPart c = false) :
    c ∉ word.text.toList := by
  intro mem
  rw [isPart_of_mem word.isIdentifier mem] at foreign
  exact absurd foreign (by simp)

/-- What stands around a character that it does not spell is no word. -/
theorem Word.ne_append (word : Word) {c : Char} (foreign : Text.Letter.isPart c = false)
    (before after : String) : word.text ≠ before ++ String.singleton c ++ after := by
  intro same
  exact word.not_mem foreign (by simp [same])

namespace Dotted

theorem split_of_point_not_mem {text : List Char} (plain : '.' ∉ text) : split text = [text] := by
  induction text with
  | nil => rfl
  | cons c rest ih =>
    simp only [List.mem_cons, not_or] at plain
    simp [split, ih plain.2, Ne.symm plain.1]

theorem mem_split {text : List Char} {c : Char} (mem : c ∈ text) :
    c = '.' ∨ ∃ segment ∈ split text, c ∈ segment := by
  induction text with
  | nil => exact absurd mem (by simp)
  | cons first rest ih =>
    rw [split]
    split
    next point =>
      obtain rfl | mem := List.mem_cons.1 mem
      next => exact .inl point
      next =>
        obtain later | ⟨segment, among, inside⟩ := ih mem
        next => exact .inl later
        next => exact .inr ⟨segment, by simp [among], inside⟩
    next =>
      cases parts : split rest with
      | nil => exact absurd parts (split_ne_nil rest)
      | cons head others =>
        rw [parts] at ih
        obtain rfl | mem := List.mem_cons.1 mem
        next => exact .inr ⟨c :: head, by simp⟩
        next =>
          obtain point | ⟨segment, among, inside⟩ := ih mem
          next => exact .inl point
          next =>
            -- The first segment is longer by now, and the others are what they were.
            obtain rfl | among := List.mem_cons.1 among
            next => exact .inr ⟨first :: segment, by simp [inside]⟩
            next => exact .inr ⟨segment, by simp [among], inside⟩

theorem split_append_point (first rest : List Char) :
    split (first ++ '.' :: rest) = split first ++ split rest := by
  induction first with
  | nil => simp [split]
  | cons c more ih =>
    rw [List.cons_append, split, split, ih]
    split
    next => rfl
    next =>
      cases parts : split more with
      | nil => exact absurd parts (split_ne_nil more)
      | cons segment others => rfl

theorem segments_append_point (first rest : String) :
    segments (first ++ "." ++ rest) = segments first ++ segments rest := by
  simp [segments, split_append_point]

theorem segments_of_isIdentifier {text : String} (valid : isIdentifier text = true) :
    segments text = [text] := by
  rw [segments, split_of_point_not_mem (point_not_mem valid)]
  simp

theorem segments_of_isWord {text : String} (word : isWord text = true) : segments text = [text] :=
  segments_of_isIdentifier (isIdentifier_of_isWord word)

theorem segments_ne_nil (text : String) : segments text ≠ [] := by
  simp [segments, split_ne_nil]

end Dotted

theorem Path.isIdentifier (path : Path) {segment : String}
    (mem : segment ∈ Dotted.segments path.text) : isIdentifier segment = true := by
  have valid := path.valid
  simp only [isPath, List.all_eq_true] at valid
  exact isIdentifier_of_isWord (valid segment mem)

end Graft
