import Graft.Identifier

set_option autoImplicit false

/-!
Dotted texts: segments with a point between neighbours. `split` always has a segment more than
the text has points, so `join` undoes it.
-/
namespace Graft.Dotted

def split : List Char → List (List Char)
  | [] => [[]]
  | c :: rest =>
    if c = '.' then [] :: split rest
    else
      match split rest with
      | [] => [[c]]
      | segment :: others => (c :: segment) :: others

def join : List (List Char) → List Char
  | [] => []
  | [segment] => segment
  | segment :: others => segment ++ '.' :: join others

theorem split_ne_nil (text : List Char) : split text ≠ [] := by
  cases text with
  | nil => simp [split]
  | cons c rest =>
    unfold split
    split
    · simp
    · split <;> simp

theorem join_split (text : List Char) : join (split text) = text := by
  induction text with
  | nil => rfl
  | cons c rest ih =>
    unfold split
    split
    next point =>
      cases parts : split rest with
      | nil => exact absurd parts (split_ne_nil rest)
      | cons segment others => simp [join, ← parts, ih, point]
    next =>
      cases parts : split rest with
      | nil => exact absurd parts (split_ne_nil rest)
      | cons segment others =>
        rw [parts] at ih
        cases others with
        | nil => simpa [join] using ih
        | cons next more => simpa [join] using ih

def segments (text : String) : List String :=
  (split text.toList).map String.ofList

def ofSegments (parts : List String) : String :=
  String.ofList (join (parts.map String.toList))

theorem ofSegments_segments (text : String) : ofSegments (segments text) = text := by
  simp [ofSegments, segments, Function.comp_def, join_split]

end Graft.Dotted

namespace Graft

def isPath (text : String) : Bool :=
  (Dotted.segments text).all isWord

/-- A dotted path of words, such as the full name of a package. -/
@[ext] structure Path where
  text : String
  valid : isPath text = true
  deriving DecidableEq

def Path.ofString? (text : String) : Option Path :=
  if valid : isPath text = true then some ⟨text, valid⟩ else none

def Path.segments (path : Path) : List String :=
  Dotted.segments path.text

theorem Path.ofString?_text (path : Path) : Path.ofString? path.text = some path := by
  simp [Path.ofString?, path.valid]

namespace Dotted

/-- The pattern of a dotted path: identifiers with a point between neighbours, up to the end of the text or to
a line feed there. `begins` is set where an identifier has to begin. -/
def fits (begins : Bool) : List Char → Bool
  | [] => !begins
  | c :: rest =>
    if begins then isAsciiStart c && fits false rest
    else if isAsciiPart c then fits false rest
    else if c = '.' then fits true rest
    else c = '\n' && rest.isEmpty

/-- Where no line feed ends the text, all segments are identifiers. -/
theorem fits_eq {text : List Char} (unbroken : text.getLast? ≠ some '\n') :
    fits true text = (split text).all spellsWord ∧
      fits false text = (((split text).headD []).all isAsciiPart && (split text).tail.all spellsWord) := by
  induction text with
  | nil => exact ⟨rfl, rfl⟩
  | cons c rest ih =>
    have inner : rest.getLast? ≠ some '\n' := by
      cases rest with
      | nil => simp
      | cons next more => simpa [List.getLast?_cons_cons] using unbroken
    obtain ⟨begins, goesOn⟩ := ih inner
    unfold fits split
    by_cases point : c = '.'
    next =>
      have start : isAsciiStart '.' = false := by decide
      have part : isAsciiPart '.' = false := by decide
      simp [point, begins, spellsWord, start, part]
    next =>
      have last : (c = '\n' && rest.isEmpty) = false := by
        cases rest with
        | nil => simpa using unbroken
        | cons next more => simp
      cases parts : split rest with
      | nil => exact absurd parts (split_ne_nil rest)
      | cons segment others =>
        rw [parts] at goesOn
        cases part : isAsciiPart c <;> simp [point, goesOn, last, spellsWord, part, Bool.and_assoc]

end Dotted

/-- What fits the pattern and has no keyword as a segment is a path. -/
theorem fits_iff_isPath {text : String} (unbroken : text.toList.getLast? ≠ some '\n') :
    (Dotted.fits true text.toList && !(Dotted.segments text).any isKeyword) = true ↔
      isPath text = true := by
  rw [Bool.and_eq_true, (Dotted.fits_eq unbroken).1]
  simp [isPath, Dotted.segments, isWord, forall_and]

end Graft
