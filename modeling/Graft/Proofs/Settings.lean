import Graft.Proofs.Identifier
import Graft.Proofs.Outcome
import Graft.Settings

set_option autoImplicit false

/-!
The checks of single settings. Each accepts a text if it is in order without the blanks around it, and keeps
that. A path or a word has no blanks around it, so it is read as itself.
-/
namespace Graft

theorem isBlank_of_isAsciiPart {c : Char} (part : isAsciiPart c = true) : Text.isBlank c = false := by
  simp only [isAsciiPart, Bool.or_eq_true, beq_iff_eq] at part
  obtain h | rfl := part
  next =>
    -- Letters and digits begin above the blanks of their range, and end before the others.
    have above := le_of_isAlphanum h
    have below := ascii_of_isAlphanum h
    simp only [Text.isBlank, Bool.or_eq_false_iff, Bool.and_eq_false_iff, decide_eq_false_iff_not,
      beq_eq_false_iff_ne]
    omega
  next => decide

theorem Path.isBlank_of_mem (path : Path) {c : Char} (mem : c ∈ path.text.toList) :
    Text.isBlank c = false := by
  obtain rfl | ⟨segment, among, inside⟩ := Dotted.mem_split mem
  next => decide
  next =>
    have valid := path.valid
    simp only [isPath, Dotted.segments, List.all_map, List.all_eq_true] at valid
    have word := valid segment among
    simp only [Function.comp_apply, isWord, String.toList_ofList, Bool.and_eq_true] at word
    exact isBlank_of_isAsciiPart (isAsciiPart_of_mem word.1 inside)

theorem Text.trim_eq_self {text : String} (plain : ∀ c ∈ text.toList, isBlank c = false) :
    trim text = text := by
  have kept (chars : List Char) (plain : ∀ c ∈ chars, isBlank c = false) :
      chars.dropWhile isBlank = chars := by
    cases chars with
    | nil => rfl
    | cons first rest => rw [List.dropWhile_cons_of_neg (by simp [plain first])]
  rw [trim, trimEnd, kept _ plain, kept _ fun c mem => plain c (List.mem_reverse.1 mem),
    List.reverse_reverse, String.ofList_toList]

def Word.toPath (word : Word) : Path :=
  ⟨word.text, by simp [isPath, Dotted.segments_of_isIdentifier word.isIdentifier, word.valid]⟩

theorem Text.trim_path (path : Path) : trim path.text = path.text :=
  trim_eq_self fun _ => path.isBlank_of_mem

theorem Word.ofString?_eq_some {text : String} {word : Word} :
    Word.ofString? text = some word ↔ word.text = text := by
  constructor
  next =>
    intro spelled
    unfold Word.ofString? at spelled
    split at spelled
    next => exact congrArg Word.text (Option.some.inj spelled) ▸ rfl
    next => exact absurd spelled (by simp)
  next =>
    rintro rfl
    exact Word.ofString?_text word

namespace Settings

theorem checkPath_eq_ok {role : Role} {text : String} {path : Path} :
    checkPath role text = .ok path ↔ path.text = Text.trim text := by
  have sound := fits_iff_isPath (Text.getLast?_trim text)
  simp only [checkPath]
  constructor
  next =>
    intro checked
    split at checked
    next => exact congrArg Path.text (Except.ok.inj checked) ▸ rfl
    next => exact absurd checked (by simp)
  next =>
    intro same
    rw [dif_pos (sound.2 (same ▸ path.valid))]
    exact congrArg Except.ok (Path.ext same.symm)

theorem checkWord_eq_ok {text : String} {word : Word} :
    checkWord text = .ok word ↔ word.text = Text.trim text := by
  unfold checkWord
  constructor
  next =>
    intro checked
    obtain ⟨path, found, checked⟩ := bind_eq_ok.1 checked
    split at checked
    next spelled =>
      obtain rfl := Except.ok.inj checked
      rw [Word.ofString?_eq_some.1 spelled, checkPath_eq_ok.1 found]
    next => exact absurd checked (by simp)
  next =>
    intro same
    refine bind_eq_ok.2 ⟨word.toPath, checkPath_eq_ok.2 same, ?_⟩
    simp only [Word.toPath, Word.ofString?_text]

theorem checkPath_text (role : Role) (path : Path) : checkPath role path.text = .ok path :=
  checkPath_eq_ok.2 (Text.trim_path path).symm

theorem checkWord_text (word : Word) : checkWord word.text = .ok word :=
  checkWord_eq_ok.2 (Text.trim_path word.toPath).symm

end Settings

end Graft
