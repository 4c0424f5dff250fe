import Graft.Dotted
import Graft.Export
import Graft.Text.Blank

set_option autoImplicit false

/-!
The settings of a run: which factories are recognised, and how the plugin packages are named.
A host hands over loose entries; `Settings.ofEntries` checks all of them and reports every
complaint, in the order of the fields.
-/
namespace Graft

/-- A dotted path with at least one segment before its last. -/
structure Factory where
  path : Path
  deep : 2 ≤ path.segments.length
  deriving DecidableEq

def Factory.qualified (factory : Factory) : String := factory.path.text

def Factory.export (factory : Factory) : Export where
  source := Dotted.ofSegments factory.path.segments.dropLast
  name := factory.path.segments.getLastD ""

structure Settings where
  factories : List Factory
  factories_nodup : factories.Nodup
  bindingsModule : Path
  bindingsExport : Word
  virtualRoot : Path
  inputs : Word
  library : Word
  libraryExport : Word
  defaultType : String
  definer : Word
  deriving DecidableEq

namespace Settings

def standard : Settings where
  factories := [⟨⟨"formkit.vue.FormKit", by decide +kernel⟩, by decide +kernel⟩]
  factories_nodup := List.pairwise_singleton _ _
  bindingsModule := ⟨"formkit.vue", by decide +kernel⟩
  bindingsExport := ⟨"bindings", by decide +kernel⟩
  virtualRoot := ⟨"formkit_virtual", by decide +kernel⟩
  inputs := ⟨"inputs", by decide +kernel⟩
  library := ⟨"library", by decide +kernel⟩
  libraryExport := ⟨"library", by decide +kernel⟩
  defaultType := "text"
  definer := ⟨"define_formkit_config", by decide +kernel⟩

def bindings (settings : Settings) : Export :=
  ⟨settings.bindingsModule.text, settings.bindingsExport.text⟩

/-- The recognised exports, by their qualified names. -/
def factoryTable (settings : Settings) : List (String × Export) :=
  settings.factories.map fun factory => (factory.qualified, factory.export)

/-- A value as a host hands it over. -/
inductive Entry where
  | text (value : String)
  | list (items : List Entry)
  | other

/-- What a text was meant to be. -/
inductive Role where
  | factory
  | modulePath
  | identifier
  deriving DecidableEq

def Role.phrase : Role → String
  | .factory => "factory name"
  | .modulePath => "module path"
  | .identifier => "identifier"

inductive Cause where
  | notText
  | notList
  | malformed (role : Role) (text : String)
  | withoutModule (text : String)
  | dotted (text : String)
  | blankDefault
  deriving DecidableEq

def Cause.message : Cause → String
  | .notText => "Input should be a valid string"
  | .notList => "Input should be a valid list"
  | .malformed role text =>
    "Value error, Invalid " ++ role.phrase ++ ": '" ++ text ++
      "'. Expected a dotted Python path (e.g. 'formkit.vue')."
  | .withoutModule text =>
    "Value error, Factory '" ++ text ++
      "' must include its module path (e.g. 'formkit.vue.FormKit')."
  | .dotted text => "Value error, Invalid identifier: '" ++ text ++ "'. Dots are not allowed here."
  | .blankDefault => "Value error, default_input_type must not be empty."

/-- Where an entry is wrong, and why. `item` is the place in a list. -/
structure Complaint where
  field : String
  item : Option Nat
  cause : Cause
  deriving DecidableEq

def checkPath (role : Role) (text : String) : Except Cause Path :=
  let inner := Text.trim text
  if fits : (Dotted.fits true inner.toList && !(Dotted.segments inner).any isKeyword) = true then
    .ok ⟨inner, (fits_iff_isPath (Text.getLast?_trim text)).1 fits⟩
  else .error (.malformed role text)

def checkWord (text : String) : Except Cause Word := do
  let path ← checkPath .identifier text
  match Word.ofString? path.text with
  | some word => .ok word
  | none => .error (.dotted text)

def checkFactory (text : String) : Except Cause Factory := do
  let path ← checkPath .factory text
  if deep : 2 ≤ path.segments.length then .ok ⟨path, deep⟩ else .error (.withoutModule text)

def checkDefault (text : String) : Except Cause String :=
  if Text.trim text = "" then .error .blankDefault else .ok (Text.trim text)

def addNew {A : Type} [DecidableEq A] (known : List A) (item : A) : List A :=
  if item ∈ known then known else known ++ [item]

/-- The first occurrences, in order. -/
def distinct {A : Type} [DecidableEq A] (items : List A) : List A :=
  items.foldl addNew []

theorem addNew_nodup {A : Type} [DecidableEq A] {known : List A} (distinct : known.Nodup)
    (item : A) : (addNew known item).Nodup := by
  unfold addNew
  split
  next => exact distinct
  next absent =>
    refine List.nodup_append.mpr ⟨distinct, by simp, ?_⟩
    rintro a there b same rfl
    simp only [List.mem_singleton] at same
    exact absent (same ▸ there)

theorem distinct_nodup {A : Type} [DecidableEq A] (items : List A) : (distinct items).Nodup := by
  suffices ∀ known : List A, known.Nodup → (items.foldl addNew known).Nodup from this [] (by simp)
  induction items with
  | nil => exact fun _ nodup => nodup
  | cons item rest ih => exact fun known nodup => ih _ (addNew_nodup nodup item)

abbrev Checked := Except (List Complaint)

def complaints {A : Type} : Checked A → List Complaint
  | .ok _ => []
  | .error found => found

def checkText {A : Type} (field : String) (check : String → Except Cause A) : Entry → Checked A
  | .text value => (check value).mapError fun cause => [⟨field, none, cause⟩]
  | _ => .error [⟨field, none, .notText⟩]

def textItems (field : String) : Nat → List Entry → Checked (List String)
  | _, [] => .ok []
  | item, entry :: rest =>
    match entry, textItems field (item + 1) rest with
    | .text value, .ok values => .ok (value :: values)
    | .text _, .error found => .error found
    | _, others => .error (⟨field, some item, .notText⟩ :: complaints others)

def checkFactories (field : String) : Entry → Checked { list : List Factory // list.Nodup }
  | .list items => do
    let texts ← textItems field 0 items
    match texts.mapM checkFactory with
    | .ok factories => .ok ⟨distinct factories, distinct_nodup factories⟩
    | .error cause => .error [⟨field, none, cause⟩]
  | _ => .error [⟨field, none, .notList⟩]

def read {A : Type} (entries : List (String × Entry)) (standard : A) (field : String)
    (check : String → Entry → Checked A) : Checked A :=
  match entries.lookup field with
  | none => .ok standard
  | some entry => check field entry

/-- Entries of other names are passed over, and missing ones have their standard value. -/
def ofEntries (entries : List (String × Entry)) : Checked Settings :=
  let path := fun field => checkText field (checkPath .modulePath)
  let word := fun field => checkText field checkWord
  let factories :=
    read entries ⟨standard.factories, standard.factories_nodup⟩ "factories" checkFactories
  let bindingsModule := read entries standard.bindingsModule "bindings_module" path
  let bindingsExport := read entries standard.bindingsExport "bindings_export" word
  let virtualRoot := read entries standard.virtualRoot "virtual_namespace" path
  let inputs := read entries standard.inputs "inputs_category" word
  let library := read entries standard.library "library_category" word
  let libraryExport := read entries standard.libraryExport "library_export" word
  let defaultType := read entries standard.defaultType "default_input_type"
    fun field => checkText field checkDefault
  let definer := read entries standard.definer "config_function" word
  let found := complaints factories ++ complaints bindingsModule ++ complaints bindingsExport ++
    complaints virtualRoot ++ complaints inputs ++ complaints library ++
    complaints libraryExport ++ complaints defaultType ++ complaints definer
  match factories, bindingsModule, bindingsExport, virtualRoot, inputs, library, libraryExport,
    defaultType, definer with
  | .ok factories, .ok bindingsModule, .ok bindingsExport, .ok virtualRoot, .ok inputs,
    .ok library, .ok libraryExport, .ok defaultType, .ok definer =>
    .ok { factories := factories.1, factories_nodup := factories.2, bindingsModule,
          bindingsExport, virtualRoot, inputs, library, libraryExport, defaultType, definer }
  | _, _, _, _, _, _, _, _, _ => .error found

end Settings

end Graft
