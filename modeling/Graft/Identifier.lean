import Graft.Text.Letter

set_option autoImplicit false

/-!
Identifiers as a source spells them, and the narrower words that settings are made of. Both are texts
with a proof of their spelling.
-/
namespace Graft

/-- The words that the language keeps for itself. -/
def keywords : List String :=
  ["False", "None", "True", "and", "as", "assert", "async", "await", "break", "class",
    "continue", "def", "del", "elif", "else", "except", "finally", "for", "from", "global",
    "if", "import", "in", "is", "lambda", "nonlocal", "not", "or", "pass", "raise", "return",
    "try", "while", "with", "yield"]

def isKeyword (text : String) : Bool :=
  keywords.contains text

def spellsIdentifier : List Char → Bool
  | [] => false
  | first :: rest => Text.Letter.isStart first && rest.all Text.Letter.isPart

def isIdentifier (text : String) : Bool :=
  spellsIdentifier text.toList

/-- An identifier as a source may spell it. Keywords are not excluded. -/
structure Identifier where
  text : String
  valid : isIdentifier text = true
  deriving DecidableEq

inductive Identifier.Fault where
  | empty
  | malformed (text : String)
  deriving DecidableEq, Repr

def Identifier.ofString (text : String) : Except Identifier.Fault Identifier :=
  if valid : isIdentifier text = true then .ok ⟨text, valid⟩
  else .error (if text = "" then .empty else .malformed text)

def Identifier.Fault.message : Identifier.Fault → String
  | .empty => "Cannot have empty name identifier."
  | .malformed text => "Name '" ++ text ++ "' is not a valid identifier."

theorem Identifier.ofString_text (name : Identifier) :
    Identifier.ofString name.text = .ok name := by
  simp [Identifier.ofString, name.valid]

def isAsciiStart (c : Char) : Bool := c.isAlpha || c == '_'

def isAsciiPart (c : Char) : Bool := c.isAlphanum || c == '_'

def spellsWord : List Char → Bool
  | [] => false
  | first :: rest => isAsciiStart first && rest.all isAsciiPart

def isWord (text : String) : Bool :=
  spellsWord text.toList && !isKeyword text

/-- An ASCII identifier that is no keyword. -/
@[ext] structure Word where
  text : String
  valid : isWord text = true
  deriving DecidableEq

def Word.ofString? (text : String) : Option Word :=
  if valid : isWord text = true then some ⟨text, valid⟩ else none

theorem Word.ofString?_text (word : Word) : Word.ofString? word.text = some word := by
  simp [Word.ofString?, word.valid]

end Graft
