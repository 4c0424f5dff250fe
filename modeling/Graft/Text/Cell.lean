set_option autoImplicit false

/-!
Cells of a terminal. Ideographs and pictures take two, and tabs reach to the next multiple of
eight.
-/
namespace Graft.Text.Cell

/-- Blocks of wide characters. -/
def wide : List (Nat × Nat) :=
  [(0x1100, 0x115f), (0x274c, 0x274c), (0x2e80, 0x303e), (0x3041, 0xa4cf), (0xac00, 0xd7a3),
    (0xf900, 0xfaff), (0xfe30, 0xfe6b), (0xff01, 0xff60), (0xffe0, 0xffe6), (0x1f300, 0x1f64f),
    (0x1f900, 0x1f9ff), (0x20000, 0x3fffd)]

def width (c : Char) : Nat :=
  if wide.any fun block => block.1 ≤ c.toNat && c.toNat ≤ block.2 then 2 else 1

def nextStop (column : Nat) : Nat := (column / 8 + 1) * 8

/-- Writes a line with blanks in place of its tabs. -/
def expandTabs (column : Nat) : List Char → List Char
  | [] => []
  | c :: rest =>
    if c = '\t' then
      List.replicate (nextStop column - column) ' ' ++ expandTabs (nextStop column) rest
    else c :: expandTabs (column + width c) rest

/-- Characters that steer a terminal and show nothing. -/
def isControl (c : Char) : Bool :=
  c = '\x07' || c = '\x08' || c = '\x0b' || c = '\x0c' || c = '\r'

end Graft.Text.Cell
