import Graft.Proofs.InputType
import Graft.Proofs.Settings.Grammar
import Graft.Proofs.Tree.DottedName

set_option autoImplicit false

/-!
Which entries make settings, and which settings they make. Every given field has to be of its grammar, what is
stored is what is left without the blanks, and entries that are written from settings make the same settings
again.
-/
namespace Graft

namespace Settings

/-- What an entry has to be for a field, where there is one. -/
def Given (entries : List (String × Entry)) (field : String) (Allowed : Entry → Prop) : Prop :=
  ∀ entry, entries.lookup field = some entry → Allowed entry

/-- What is stored for a field without an entry, and for one with an entry. -/
def Stored (entries : List (String × Entry)) (field : String) (missing : Prop) (given : Entry → Prop) : Prop :=
  match entries.lookup field with
  | none => missing
  | some entry => given entry

theorem read_eq_ok {A : Type} {entries : List (String × Entry)} {standard a : A} {field : String}
    {check : String → Entry → Checked A} : read entries standard field check = .ok a ↔
      Stored entries field (a = standard) fun entry => check field entry = .ok a := by
  unfold read Stored
  cases entries.lookup field with
  | none => rw [Except.ok.injEq, eq_comm]
  | some entry => rfl

theorem Stored.imp {entries : List (String × Entry)} {field : String} {missing missing' : Prop}
    {given given' : Entry → Prop} (stored : Stored entries field missing given) (none : missing → missing')
    (some : ∀ entry, given entry → given' entry) : Stored entries field missing' given' := by
  unfold Stored at stored ⊢
  cases found : entries.lookup field with
  | none => rw [found] at stored; exact none stored
  | some entry => rw [found] at stored; exact some entry stored

/-- What a text field holds: the text without the blanks around it, of the grammar of the field. -/
def Holds (entries : List (String × Entry)) (field : String) (Grammar : String → Prop)
    (standard stored : String) : Prop :=
  Stored entries field (stored = standard) fun entry =>
    ∃ given, entry = .text given ∧ stored = Text.trim given ∧ Grammar stored

def IsText (Grammar : String → Prop) (entry : Entry) : Prop :=
  ∃ given, entry = .text given ∧ Grammar (Text.trim given)

theorem checkText_eq_ok {A : Type} {check : String → Except Cause A} {text : A → String}
    {Grammar : String → Prop} (decides : Decides check text Grammar) {field : String} {entry : Entry} {a : A} :
    checkText field check entry = .ok a ↔
      ∃ given, entry = .text given ∧ text a = Text.trim given ∧ Grammar (text a) := by
  cases entry with
  | text given =>
    have same : checkText field check (.text given) = .ok a ↔ check given = .ok a := by
      rw [checkText]
      cases check given with
      | ok b =>
        change Except.ok b = Except.ok a ↔ _
        simp only [Except.ok.injEq]
      | error cause => exact ⟨nofun, nofun⟩
    simp [same, decides.eq_ok]
  | list items => simp [checkText]
  | other => simp [checkText]

section

variable {A : Type} {check : String → Except Cause A} {text : A → String} {Grammar : String → Prop}
  (decides : Decides check text Grammar) {entries : List (String × Entry)} {standard a : A} {field : String}

include decides

theorem read_text_eq_ok : (read entries standard field fun field => checkText field check) = .ok a ↔
    Holds entries field Grammar (text standard) (text a) := by
  rw [read_eq_ok]
  constructor
  next => exact fun stored => stored.imp (congrArg text) fun _ => (checkText_eq_ok decides).1
  next => exact fun stored => stored.imp decides.ext fun _ => (checkText_eq_ok decides).2

theorem exists_holds :
    (∃ a, Holds entries field Grammar (text standard) (text a)) ↔ Given entries field (IsText Grammar) := by
  unfold Holds Stored Given
  cases entries.lookup field with
  | none => exact ⟨by simp, fun _ => ⟨standard, rfl⟩⟩
  | some entry =>
    simp only [Option.some.injEq, forall_eq']
    constructor
    next =>
      rintro ⟨a, given, is, same, sound⟩
      exact ⟨given, is, same ▸ sound⟩
    next =>
      rintro ⟨given, is, sound⟩
      obtain ⟨a, same⟩ := decides.onto _ sound
      exact ⟨a, given, is, same, same.symm ▸ sound⟩

theorem holds_again (holds : Holds entries field Grammar (text standard) (text a))
    (sound : check (text standard) = .ok standard) {more : List (String × Entry)}
    (given : more.lookup field = some (.text (text a))) :
    Holds more field Grammar (text standard) (text a) := by
  have again : check (text a) = .ok a := by
    unfold Holds Stored at holds
    split at holds
    next => exact decides.ext holds ▸ sound
    next =>
      obtain ⟨text, -, same, grammar⟩ := holds
      exact decides.again ((decides.eq_ok text a).2 ⟨same, grammar⟩)
  unfold Holds Stored
  rw [given]
  obtain ⟨same, grammar⟩ := (decides.eq_ok _ a).1 again
  exact ⟨_, rfl, same, grammar⟩

end

/-- What the field of the factories holds: the first occurrences of their texts. -/
def AreFactories (stored : List String) (entry : Entry) : Prop :=
  ∃ texts : List String, entry = .list (texts.map .text) ∧
    (∀ text ∈ texts, IsDotted 2 (Text.trim text)) ∧ stored = (texts.map Text.trim).eraseDups

theorem exists_factories {texts : List String} (sound : ∀ text ∈ texts, IsDotted 2 (Text.trim text)) :
    ∃ factories : List Factory, factories.map Factory.qualified = texts.map Text.trim := by
  induction texts with
  | nil => exact ⟨[], rfl⟩
  | cons text rest ih =>
    obtain ⟨first, same⟩ := factory_decides.onto _ (sound text (by simp))
    obtain ⟨others, rest_same⟩ := ih fun other mem => sound other (by simp [mem])
    exact ⟨first :: others, by rw [List.map_cons, List.map_cons, same, rest_same]⟩

theorem map_qualified_distinct {texts : List String} {factories : List Factory}
    (same : factories.map Factory.qualified = texts.map Text.trim) :
    (distinct factories).map Factory.qualified = (texts.map Text.trim).eraseDups := by
  rw [map_distinct Factory.ext, same, distinct_eq_eraseDups]

theorem checkFactories_eq_ok {field : String} {entry : Entry} {known : { list : List Factory // list.Nodup }} :
    checkFactories field entry = .ok known ↔ AreFactories (known.1.map Factory.qualified) entry := by
  unfold AreFactories
  cases entry with
  | list items =>
    constructor
    next =>
      intro checked
      obtain ⟨texts, read, checked⟩ := bind_eq_ok.1 checked
      split at checked
      next factories made =>
        obtain rfl := Except.ok.inj checked
        have same := mapM_checkFactory_eq_ok.1 made
        refine ⟨texts, congrArg Entry.list (textItems_eq_ok.1 read), fun text mem => ?_,
          map_qualified_distinct same⟩
        have among : Text.trim text ∈ factories.map Factory.qualified := same ▸ List.mem_map_of_mem mem
        obtain ⟨factory, -, written⟩ := List.mem_map.1 among
        exact written ▸ factory.isDotted
      next => exact absurd checked (by simp)
    next =>
      rintro ⟨texts, is, sound, stored⟩
      obtain ⟨factories, same⟩ := exists_factories sound
      refine bind_eq_ok.2 ⟨texts, textItems_eq_ok.2 (Entry.list.inj is), ?_⟩
      simp only [mapM_checkFactory_eq_ok.2 same]
      refine congrArg Except.ok (Subtype.ext ?_)
      rw [← map_qualified_distinct same] at stored
      exact ((List.map_inj_right fun _ _ => Factory.ext).1 stored).symm
  | text value => simp [checkFactories]
  | other => simp [checkFactories]

/-- Entries that are of the grammars of their fields. -/
structure AreGrammatical (entries : List (String × Entry)) : Prop where
  factories : Given entries "factories" fun entry => ∃ texts : List String,
    entry = .list (texts.map .text) ∧ ∀ text ∈ texts, IsDotted 2 (Text.trim text)
  bindingsModule : Given entries "bindings_module" (IsText (IsDotted 1))
  bindingsExport : Given entries "bindings_export" (IsText IsOneWord)
  virtualRoot : Given entries "virtual_namespace" (IsText (IsDotted 1))
  inputs : Given entries "inputs_category" (IsText IsOneWord)
  library : Given entries "library_category" (IsText IsOneWord)
  libraryExport : Given entries "library_export" (IsText IsOneWord)
  defaultType : Given entries "default_input_type" (IsText (· ≠ ""))
  definer : Given entries "config_function" (IsText IsOneWord)

/-- Settings that hold what entries give, and the standard where they give nothing. -/
structure AreStored (entries : List (String × Entry)) (settings : Settings) : Prop where
  factories : Stored entries "factories" (settings.factories = standard.factories)
    (AreFactories (settings.factories.map Factory.qualified))
  bindingsModule : Holds entries "bindings_module" (IsDotted 1) standard.bindingsModule.text
    settings.bindingsModule.text
  bindingsExport : Holds entries "bindings_export" IsOneWord standard.bindingsExport.text
    settings.bindingsExport.text
  virtualRoot : Holds entries "virtual_namespace" (IsDotted 1) standard.virtualRoot.text
    settings.virtualRoot.text
  inputs : Holds entries "inputs_category" IsOneWord standard.inputs.text settings.inputs.text
  library : Holds entries "library_category" IsOneWord standard.library.text settings.library.text
  libraryExport : Holds entries "library_export" IsOneWord standard.libraryExport.text
    settings.libraryExport.text
  defaultType : Holds entries "default_input_type" (· ≠ "") standard.defaultType settings.defaultType
  definer : Holds entries "config_function" IsOneWord standard.definer.text settings.definer.text

theorem read_factories_eq_ok {entries : List (String × Entry)} {settings : Settings} :
    read entries ⟨standard.factories, standard.factories_nodup⟩ "factories" checkFactories =
        .ok ⟨settings.factories, settings.factories_nodup⟩ ↔
      Stored entries "factories" (settings.factories = standard.factories)
        (AreFactories (settings.factories.map Factory.qualified)) := by
  rw [read_eq_ok]
  constructor
  next => exact fun stored => stored.imp (congrArg Subtype.val) fun _ => checkFactories_eq_ok.1
  next =>
    exact fun stored => stored.imp (fun same => Subtype.ext same) fun _ =>
      (@checkFactories_eq_ok _ _ ⟨settings.factories, settings.factories_nodup⟩).2

theorem ofEntries_eq_ok {entries : List (String × Entry)} {settings : Settings} :
    ofEntries entries = .ok settings ↔ AreStored entries settings := by
  have path (field : String) (standard stored : Path) :=
    @read_text_eq_ok _ _ _ _ (path_decides .modulePath) entries standard stored field
  have word (field : String) (standard stored : Word) :=
    @read_text_eq_ok _ _ _ _ word_decides entries standard stored field
  have default (field : String) (standard stored : String) :=
    @read_text_eq_ok _ _ _ _ default_decides entries standard stored field
  constructor
  next =>
    intro made
    unfold ofEntries at made
    simp only at made
    split at made
    next factories bindingsModule bindingsExport virtualRoot inputs library libraryExport defaultType definer =>
      obtain rfl := Except.ok.inj made
      exact ⟨read_factories_eq_ok.1 factories, (path _ _ _).1 bindingsModule, (word _ _ _).1 bindingsExport,
        (path _ _ _).1 virtualRoot, (word _ _ _).1 inputs, (word _ _ _).1 library,
        (word _ _ _).1 libraryExport, (default _ _ _).1 defaultType, (word _ _ _).1 definer⟩
    next => exact absurd made (by simp)
  next =>
    intro stored
    unfold ofEntries
    simp only [read_factories_eq_ok.2 stored.factories, (path _ _ _).2 stored.bindingsModule,
      (word _ _ _).2 stored.bindingsExport, (path _ _ _).2 stored.virtualRoot, (word _ _ _).2 stored.inputs,
      (word _ _ _).2 stored.library, (word _ _ _).2 stored.libraryExport, (default _ _ _).2 stored.defaultType,
      (word _ _ _).2 stored.definer]

theorem exists_stored_factories {entries : List (String × Entry)} (sound : AreGrammatical entries) :
    ∃ factories : { list : List Factory // list.Nodup }, Stored entries "factories"
      (factories.1 = standard.factories) (AreFactories (factories.1.map Factory.qualified)) := by
  have given := sound.factories
  unfold Given at given
  unfold Stored
  cases found : entries.lookup "factories" with
  | none => exact ⟨⟨standard.factories, standard.factories_nodup⟩, rfl⟩
  | some entry =>
    obtain ⟨texts, is, dotted⟩ := given entry found
    obtain ⟨factories, same⟩ := exists_factories dotted
    exact ⟨⟨distinct factories, distinct_nodup factories⟩, texts, is, dotted, map_qualified_distinct same⟩

theorem exists_ofEntries_iff {entries : List (String × Entry)} :
    (∃ settings, ofEntries entries = .ok settings) ↔ AreGrammatical entries := by
  constructor
  next =>
    rintro ⟨settings, made⟩
    have stored := ofEntries_eq_ok.1 made
    have path {field : String} {standard stored : Path} (holds : Holds entries field _ standard.text stored.text) :=
      (exists_holds (path_decides .modulePath)).1 ⟨stored, holds⟩
    have word {field : String} {standard stored : Word} (holds : Holds entries field _ standard.text stored.text) :=
      (exists_holds word_decides).1 ⟨stored, holds⟩
    refine ⟨fun entry found => ?_, path stored.bindingsModule, word stored.bindingsExport,
      path stored.virtualRoot, word stored.inputs, word stored.library, word stored.libraryExport,
      (exists_holds default_decides).1 ⟨_, stored.defaultType⟩, word stored.definer⟩
    have factories := stored.factories
    rw [Stored, found] at factories
    obtain ⟨texts, is, dotted, -⟩ := factories
    exact ⟨texts, is, dotted⟩
  next =>
    intro sound
    obtain ⟨factories, storedFactories⟩ := exists_stored_factories sound
    obtain ⟨bindingsModule, storedModule⟩ := (exists_holds (path_decides .modulePath)).2 sound.bindingsModule
    obtain ⟨bindingsExport, storedExport⟩ := (exists_holds word_decides).2 sound.bindingsExport
    obtain ⟨virtualRoot, storedRoot⟩ := (exists_holds (path_decides .modulePath)).2 sound.virtualRoot
    obtain ⟨inputs, storedInputs⟩ := (exists_holds word_decides).2 sound.inputs
    obtain ⟨library, storedLibrary⟩ := (exists_holds word_decides).2 sound.library
    obtain ⟨libraryExport, storedLibraryExport⟩ := (exists_holds word_decides).2 sound.libraryExport
    obtain ⟨defaultType, storedDefault⟩ := (exists_holds default_decides).2 sound.defaultType
    obtain ⟨definer, storedDefiner⟩ := (exists_holds word_decides).2 sound.definer
    exact ⟨⟨factories.1, factories.2, bindingsModule, bindingsExport, virtualRoot, inputs, library,
      libraryExport, defaultType, definer⟩, ofEntries_eq_ok.2 ⟨storedFactories, storedModule, storedExport,
        storedRoot, storedInputs, storedLibrary, storedLibraryExport, storedDefault, storedDefiner⟩⟩

/-- Settings as a host would hand them over again. -/
def entries (settings : Settings) : List (String × Entry) :=
  [("factories", .list ((settings.factories.map Factory.qualified).map .text)),
    ("bindings_module", .text settings.bindingsModule.text),
    ("bindings_export", .text settings.bindingsExport.text),
    ("virtual_namespace", .text settings.virtualRoot.text),
    ("inputs_category", .text settings.inputs.text),
    ("library_category", .text settings.library.text),
    ("library_export", .text settings.libraryExport.text),
    ("default_input_type", .text settings.defaultType),
    ("config_function", .text settings.definer.text)]

theorem areFactories_entries (settings : Settings) :
    AreFactories (settings.factories.map Factory.qualified)
      (.list ((settings.factories.map Factory.qualified).map .text)) := by
  have trimmed : (settings.factories.map Factory.qualified).map Text.trim =
      settings.factories.map Factory.qualified := by
    rw [List.map_map]
    exact List.map_congr_left fun factory _ => Text.trim_path factory.path
  refine ⟨_, rfl, fun text mem => ?_, ?_⟩
  next =>
    obtain ⟨factory, -, rfl⟩ := List.mem_map.1 mem
    rw [Factory.qualified, Text.trim_path]
    exact factory.isDotted
  next =>
    rw [← map_qualified_distinct trimmed.symm, distinct_of_nodup settings.factories_nodup]

theorem standard_default : checkDefault standard.defaultType = .ok standard.defaultType :=
  (default_decides.eq_ok _ _).2 ⟨by decide +kernel, by decide⟩

theorem ofEntries_entries {entries : List (String × Entry)} {settings : Settings}
    (made : ofEntries entries = .ok settings) : ofEntries settings.entries = .ok settings := by
  have stored := ofEntries_eq_ok.1 made
  have path {field : String} (standard : Path) {stored : Path}
      (holds : Holds entries field _ standard.text stored.text) {more : List (String × Entry)} :=
    @holds_again _ _ _ _ (path_decides .modulePath) _ _ _ _ holds (checkPath_text _ standard) more
  have word {field : String} (standard : Word) {stored : Word}
      (holds : Holds entries field _ standard.text stored.text) {more : List (String × Entry)} :=
    @holds_again _ _ _ _ word_decides _ _ _ _ holds (checkWord_text standard) more
  exact ofEntries_eq_ok.2 {
    factories := areFactories_entries settings
    bindingsModule := path _ stored.bindingsModule rfl
    bindingsExport := word _ stored.bindingsExport rfl
    virtualRoot := path _ stored.virtualRoot rfl
    inputs := word _ stored.inputs rfl
    library := word _ stored.library rfl
    libraryExport := word _ stored.libraryExport rfl
    defaultType := holds_again default_decides stored.defaultType standard_default rfl
    definer := word _ stored.definer rfl }

/-- A factory is told apart from its module at the last point. -/
theorem export_spec (factory : Factory) :
    factory.export.source ++ "." ++ factory.export.name = factory.qualified ∧
      '.' ∉ factory.export.name.toList ∧ IsDotted 1 factory.export.source := by
  obtain ⟨words, same⟩ := factory.path.exists_words
  have deep := factory.deep
  rw [same, List.length_map] at deep
  obtain ⟨init, last, rfl⟩ := List.eq_nil_or_concat words |>.resolve_left (by rintro rfl; simp at deep)
  cases init with
  | nil => simp at deep
  | cons first rest =>
    rw [List.concat_eq_append, List.map_append, List.map_singleton] at same
    have source : factory.export.source = Dotted.ofSegments ((first :: rest).map Word.text) := by
      rw [Factory.export, same, List.dropLast_concat]
    have name : factory.export.name = last.text := by
      rw [Factory.export, same, List.getLastD_concat]
    have whole : factory.qualified = Dotted.ofSegments ((first :: rest).map Word.text ++ [last.text]) := by
      rw [← same, Path.segments, Dotted.ofSegments_segments]
      rfl
    rw [source, name, whole]
    refine ⟨(Dotted.ofSegments_concat _ _ _).symm, last.not_mem (by decide), first :: rest, by simp, ?_⟩
    rw [Dotted.intercalate_eq]

/-- Settings are made exactly of entries that are of the grammars of their fields. They hold what the entries
give without the blanks around it, factories by their first occurrences; given as they are stored they are
made again; and their table has their factories as keys, in order, each with its module and its name. -/
theorem ofEntries_accepts (entries : List (String × Entry)) :
    ((∃ settings, ofEntries entries = .ok settings) ↔ AreGrammatical entries) ∧
      ∀ settings, ofEntries entries = .ok settings →
        AreStored entries settings ∧ ofEntries settings.entries = .ok settings ∧
          settings.factoryTable.map (·.1) = settings.factories.map Factory.qualified ∧
            (settings.factoryTable.map (·.1)).Nodup ∧
              ∀ entry ∈ settings.factoryTable, entry.2.source ++ "." ++ entry.2.name = entry.1 ∧
                '.' ∉ entry.2.name.toList ∧ IsDotted 1 entry.2.source := by
  refine ⟨exists_ofEntries_iff, fun settings made => ?_⟩
  have keys : settings.factoryTable.map (·.1) = settings.factories.map Factory.qualified := by
    simp [factoryTable]
  refine ⟨ofEntries_eq_ok.1 made, ofEntries_entries made, keys, ?_, fun entry mem => ?_⟩
  next =>
    rw [keys]
    exact List.Pairwise.map _ (fun _ _ => mt Factory.ext) settings.factories_nodup
  next =>
    obtain ⟨factory, -, rfl⟩ := List.mem_map.1 mem
    exact export_spec factory

/-- Entries with blanks of several kinds, one factory twice, and a field that settings do not have. -/
theorem ofEntries_accepts_padded :
    let entries : List (String × Entry) :=
      [("factories", .list [.text " formkit.vue.FormKit ", .text "formkit.vue.FormKit\n", .text "a.Field"]),
        ("library_export", .text "\u3000plugins\r\n"), ("colour", .other)]
    ∃ settings, ofEntries entries = .ok settings ∧
      settings.factories.map Factory.qualified = ["formkit.vue.FormKit", "a.Field"] ∧
        settings.libraryExport.text = "plugins" ∧ settings.inputs.text = "inputs" ∧
          ofEntries settings.entries = .ok settings ∧
            settings.factoryTable.map (·.1) = ["formkit.vue.FormKit", "a.Field"] ∧
              ∀ entry ∈ settings.factoryTable, entry.2.source ++ "." ++ entry.2.name = entry.1 := by
  intro entries
  have check : ((ofEntries entries).toOption.map fun settings =>
      (settings.factories.map Factory.qualified, settings.libraryExport.text, settings.inputs.text)) =
      some (["formkit.vue.FormKit", "a.Field"], "plugins", "inputs") := by
    decide +kernel
  obtain ⟨settings, made, shown⟩ := Option.map_eq_some_iff.1 check
  obtain ⟨factories, libraryExport, inputs⟩ := by simpa only [Prod.mk.injEq] using shown
  have made := eq_ok_of_toOption made
  obtain ⟨-, again, keys, -, exports⟩ := (ofEntries_accepts entries).2 settings made
  exact ⟨settings, made, factories, libraryExport, inputs, again, keys.trans factories,
    fun entry mem => (exports entry mem).1⟩

end Settings

end Graft
