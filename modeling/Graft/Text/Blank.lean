set_option autoImplicit false

/-!
Blanks: the characters that are trimmed from both ends of a setting.
-/
namespace Graft.Text

def isBlank (c : Char) : Bool :=
  let n := c.toNat
  (9 ≤ n && n ≤ 13) || (28 ≤ n && n ≤ 32) || n == 133 || n == 160 || n == 5760 ||
    (8192 ≤ n && n ≤ 8202) || n == 8232 || n == 8233 || n == 8239 || n == 8287 || n == 12288

theorem isBlank_of_isWhitespace (c : Char) (space : c.isWhitespace = true) :
    isBlank c = true := by
  simp only [Char.isWhitespace, Bool.or_eq_true, decide_eq_true_eq] at space
  rcases space with ((rfl | rfl) | rfl) | rfl <;> rfl

def trimEnd (text : List Char) : List Char :=
  (text.reverse.dropWhile isBlank).reverse

def trim (text : String) : String :=
  String.ofList (trimEnd (text.toList.dropWhile isBlank))

theorem isBlank_getLast?_trim {text : String} {c : Char} (last : (trim text).toList.getLast? = some c) :
    isBlank c = false := by
  have first := List.head?_dropWhile_not isBlank (text.toList.dropWhile isBlank).reverse
  rw [trim, String.toList_ofList, trimEnd, List.getLast?_reverse] at last
  rwa [last] at first

theorem getLast?_trim (text : String) : (trim text).toList.getLast? ≠ some '\n' :=
  fun last => absurd (isBlank_getLast?_trim last) (by decide)

end Graft.Text
