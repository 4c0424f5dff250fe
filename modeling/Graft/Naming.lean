import Graft.Settings

set_option autoImplicit false

/-!
Names of the virtual packages: one module for each input type, and one that knows them all.
-/
namespace Graft

/-- What is known about the input type of a call: its name, or that it varies. -/
inductive Decision where
  | static (type : String)
  | dynamic
  deriving DecidableEq, Repr

namespace Naming

def mangle (type : List Char) : List Char :=
  type.map fun c => if isAsciiPart c then c else '_'

def lead : List Char → List Char
  | [] => ['_']
  | c :: rest => if c.isDigit then '_' :: c :: rest else c :: rest

/-- The module of an input type. Types that differ in punctuation only share it. -/
def segment (type : String) : String :=
  let name := String.ofList (lead (mangle type.toList))
  if isKeyword name then name ++ "_" else name

def inputSpecifier (settings : Settings) (type : String) : String :=
  settings.virtualRoot.text ++ ":" ++ settings.inputs.text ++ ":" ++ type

def librarySpecifier (settings : Settings) : String :=
  settings.virtualRoot.text ++ ":" ++ settings.library.text

def specifier (settings : Settings) : Decision → String
  | .static type => inputSpecifier settings type
  | .dynamic => librarySpecifier settings

def inputModule (settings : Settings) (type : String) : String :=
  settings.virtualRoot.text ++ "." ++ settings.inputs.text ++ "." ++ segment type

def fallbackModule (settings : Settings) : String :=
  settings.virtualRoot.text ++ "." ++ settings.library.text

/-- The input library that serves a decision. -/
def library (settings : Settings) : Decision → Export
  | .static type => ⟨inputModule settings type, settings.libraryExport.text⟩
  | .dynamic => ⟨fallbackModule settings, settings.libraryExport.text⟩

end Naming

end Graft
