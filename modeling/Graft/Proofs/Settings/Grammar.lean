import Graft.Proofs.Settings

set_option autoImplicit false

/-!
The grammars of single settings. Paths are given by how they are written: words with points between them. A
check accepts a text if what is left without the blanks around it is of its grammar, and keeps that; a list of
factories is kept by its first occurrences.
-/
namespace Graft

/-- Words with points between them, at least so many. -/
def IsDotted (least : Nat) (text : String) : Prop :=
  ∃ words : List Word, least ≤ words.length ∧ text = ".".intercalate (words.map Word.text)

def IsOneWord (text : String) : Prop := ∃ word : Word, word.text = text

namespace Dotted

theorem ofSegments_cons (first second : String) (rest : List String) :
    ofSegments (first :: second :: rest) = first ++ "." ++ ofSegments (second :: rest) := by
  rw [← String.toList_inj]
  simp [ofSegments, join]

theorem intercalate_eq (parts : List String) : ".".intercalate parts = ofSegments parts := by
  induction parts with
  | nil => rfl
  | cons first rest ih =>
    cases rest with
    | nil => simp [ofSegments, join, String.intercalate_singleton]
    | cons second more => rw [String.intercalate_cons_cons, ih, ofSegments_cons]

theorem segments_ofSegments_words (first : Word) (rest : List Word) :
    segments (ofSegments ((first :: rest).map Word.text)) = (first :: rest).map Word.text := by
  induction rest generalizing first with
  | nil => simpa [ofSegments, join] using segments_of_isWord first.valid
  | cons second more ih =>
    have tail := ih second
    simp only [List.map_cons] at tail ⊢
    rw [ofSegments_cons, segments_append_point, tail, segments_of_isWord first.valid]
    rfl

end Dotted

theorem Path.exists_words (path : Path) : ∃ words : List Word, path.segments = words.map Word.text := by
  have valid := path.valid
  rw [isPath, List.all_eq_true] at valid
  rw [Path.segments]
  generalize Dotted.segments path.text = parts at valid
  induction parts with
  | nil => exact ⟨[], rfl⟩
  | cons part rest ih =>
    obtain ⟨words, same⟩ := ih fun other mem => valid other (by simp [mem])
    exact ⟨⟨part, valid part (by simp)⟩ :: words, by simp [same]⟩

/-- The texts of the grammar are those of paths. -/
theorem isDotted_iff {least : Nat} (some_ : 0 < least) {text : String} :
    IsDotted least text ↔ ∃ path : Path, path.text = text ∧ least ≤ path.segments.length := by
  constructor
  next =>
    rintro ⟨words, enough, rfl⟩
    cases words with
    | nil => exact absurd enough (by simpa using Nat.ne_of_gt some_)
    | cons first rest =>
      have segments := Dotted.segments_ofSegments_words first rest
      rw [← Dotted.intercalate_eq] at segments
      have valid : isPath (".".intercalate ((first :: rest).map Word.text)) = true := by
        rw [isPath, segments]
        simp [Word.valid]
      refine ⟨⟨_, valid⟩, rfl, ?_⟩
      rw [Path.segments, segments, List.length_map]
      exact enough
  next =>
    rintro ⟨path, rfl, deep⟩
    obtain ⟨words, same⟩ := path.exists_words
    refine ⟨words, by simpa [same] using deep, ?_⟩
    rw [Dotted.intercalate_eq, ← same, Path.segments, Dotted.ofSegments_segments]

theorem Path.isDotted (path : Path) : IsDotted 1 path.text :=
  (isDotted_iff (by decide)).2 ⟨path, rfl, List.length_pos_iff.2 (by simp [segments, Dotted.segments_ne_nil])⟩

theorem Factory.isDotted (factory : Factory) : IsDotted 2 factory.qualified :=
  (isDotted_iff (by decide)).2 ⟨factory.path, rfl, factory.deep⟩

theorem Factory.ext {first second : Factory} (same : first.qualified = second.qualified) :
    first = second := by
  obtain ⟨path, _⟩ := first
  obtain ⟨other, _⟩ := second
  obtain rfl : path = other := Path.ext same
  rfl

theorem Text.trimEnd_prefix (chars : List Char) : trimEnd chars <+: chars := by
  rw [trimEnd, ← List.reverse_suffix, List.reverse_reverse]
  exact List.dropWhile_suffix _

theorem Text.isBlank_head?_trim {text : String} {c : Char} (first : (trim text).toList.head? = some c) :
    isBlank c = false := by
  obtain ⟨rest, whole⟩ := trimEnd_prefix (text.toList.dropWhile isBlank)
  have lead := List.head?_dropWhile_not isBlank text.toList
  rw [trim, String.toList_ofList] at first
  rwa [← whole, List.head?_append, first, Option.some_or] at lead

theorem Text.trim_trim (text : String) : trim (trim text) = trim text := by
  have kept {chars : List Char} (plain : ∀ c, chars.head? = some c → isBlank c = false) :
      chars.dropWhile isBlank = chars := by
    cases chars with
    | nil => rfl
    | cons first rest => rw [List.dropWhile_cons_of_neg (by simp [plain first rfl])]
  have last : trimEnd (trim text).toList = (trim text).toList := by
    rw [trimEnd, kept, List.reverse_reverse]
    intro c first
    exact isBlank_getLast?_trim (by rwa [List.head?_reverse] at first)
  rw [trim, kept fun _ => isBlank_head?_trim, last, String.ofList_toList]

namespace Settings

/-- A check of texts and its grammar: it takes the blanks away, and accepts what is left if that is of the
grammar. `text` is how an accepted value is written. -/
structure Decides {A : Type} (check : String → Except Cause A) (text : A → String)
    (Grammar : String → Prop) : Prop where
  eq_ok : ∀ given a, check given = .ok a ↔ text a = Text.trim given ∧ Grammar (text a)
  onto : ∀ inner, Grammar inner → ∃ a, text a = inner
  ext : ∀ {a b}, text a = text b → a = b

theorem Decides.accepts {A : Type} {check : String → Except Cause A} {text : A → String}
    {Grammar : String → Prop} (decides : Decides check text Grammar) (given : String) :
    (∃ a, check given = .ok a) ↔ Grammar (Text.trim given) := by
  constructor
  next =>
    rintro ⟨a, checked⟩
    obtain ⟨same, sound⟩ := (decides.eq_ok given a).1 checked
    exact same ▸ sound
  next =>
    intro sound
    obtain ⟨a, same⟩ := decides.onto _ sound
    exact ⟨a, (decides.eq_ok given a).2 ⟨same, same.symm ▸ sound⟩⟩

/-- What has been accepted is accepted as it is written. -/
theorem Decides.again {A : Type} {check : String → Except Cause A} {text : A → String}
    {Grammar : String → Prop} (decides : Decides check text Grammar) {given : String} {a : A}
    (checked : check given = .ok a) : check (text a) = .ok a := by
  obtain ⟨same, sound⟩ := (decides.eq_ok given a).1 checked
  refine (decides.eq_ok _ a).2 ⟨?_, sound⟩
  rw [same, Text.trim_trim]

theorem path_decides (role : Role) : Decides (checkPath role) Path.text (IsDotted 1) where
  eq_ok given path := by simp [checkPath_eq_ok, path.isDotted]
  onto inner sound := by
    obtain ⟨path, same, -⟩ := (isDotted_iff (by decide)).1 sound
    exact ⟨path, same⟩
  ext := Path.ext

theorem word_decides : Decides checkWord Word.text IsOneWord where
  eq_ok given word := by simp [checkWord_eq_ok, IsOneWord]
  onto _ sound := sound
  ext := Word.ext

theorem default_decides : Decides checkDefault id (· ≠ "") where
  eq_ok given value := by
    unfold checkDefault
    split
    next blank => simp [blank]
    next some_ =>
      rw [Except.ok.injEq, id_eq]
      constructor
      next => rintro rfl; exact ⟨rfl, some_⟩
      next => exact fun h => h.1.symm
  onto inner _ := ⟨inner, rfl⟩
  ext := id

theorem factory_decides : Decides checkFactory Factory.qualified (IsDotted 2) where
  eq_ok given factory := by
    unfold checkFactory
    constructor
    next =>
      intro checked
      refine ⟨?_, factory.isDotted⟩
      obtain ⟨path, found, checked⟩ := bind_eq_ok.1 checked
      split at checked
      next =>
        obtain rfl := Except.ok.inj checked
        exact checkPath_eq_ok.1 found
      next => exact absurd checked (by simp)
    next =>
      rintro ⟨same, -⟩
      exact bind_eq_ok.2 ⟨factory.path, checkPath_eq_ok.2 same, dif_pos factory.deep⟩
  onto inner sound := by
    obtain ⟨path, same, deep⟩ := (isDotted_iff (by decide)).1 sound
    exact ⟨⟨path, deep⟩, same⟩
  ext := Factory.ext

/-! Lists of factories. -/

theorem foldl_addNew {A : Type} [DecidableEq A] (known items : List A) :
    items.foldl addNew known = known ++ (items.filter (· ∉ known)).eraseDups := by
  induction items generalizing known with
  | nil => simp
  | cons item rest ih =>
    rw [List.foldl_cons, ih, addNew]
    split
    next old => simp [old]
    next new =>
      have others : rest.filter (· ∉ known ++ [item]) =
          (rest.filter (· ∉ known)).filter fun other => !other == item := by
        rw [List.filter_filter]
        refine List.filter_congr fun other _ => ?_
        by_cases same : other = item <;> simp [same]
      rw [List.filter_cons_of_pos (by simpa using new), List.eraseDups_cons, others, List.append_assoc]
      rfl

theorem distinct_eq_eraseDups {A : Type} [DecidableEq A] (items : List A) :
    distinct items = items.eraseDups := by
  rw [distinct, foldl_addNew, List.nil_append, List.filter_eq_self.2 (by simp)]

theorem distinct_of_nodup {A : Type} [DecidableEq A] {items : List A} (nodup : items.Nodup) :
    distinct items = items := by
  rw [distinct_eq_eraseDups]
  induction items with
  | nil => rfl
  | cons item rest ih =>
    rw [List.nodup_cons] at nodup
    have others : rest.filter (fun other => !other == item) = rest := by
      rw [List.filter_eq_self]
      rintro other mem
      have apart : other ≠ item := by rintro rfl; exact nodup.1 mem
      simpa using apart
    rw [List.eraseDups_cons, others, ih nodup.2]

theorem map_distinct {A B : Type} [DecidableEq A] [DecidableEq B] {f : A → B}
    (ext : ∀ {a b}, f a = f b → a = b) (items : List A) :
    (distinct items).map f = distinct (items.map f) := by
  have step (known : List A) (item : A) : (addNew known item).map f = addNew (known.map f) (f item) := by
    have same : f item ∈ known.map f ↔ item ∈ known :=
      ⟨fun mem => by obtain ⟨other, among, equal⟩ := List.mem_map.1 mem; exact ext equal ▸ among,
        List.mem_map_of_mem⟩
    unfold addNew
    by_cases old : item ∈ known <;> simp [old, same]
  suffices ∀ known, (items.foldl addNew known).map f = (items.map f).foldl addNew (known.map f) from this []
  induction items with
  | nil => exact fun _ => rfl
  | cons item rest ih =>
    intro known
    rw [List.foldl_cons, ih, step]
    rfl

theorem textItems_eq_ok {field : String} {index : Nat} {items : List Entry} {texts : List String} :
    textItems field index items = .ok texts ↔ items = texts.map .text := by
  induction items generalizing index texts with
  | nil => cases texts <;> simp [textItems]
  | cons item rest ih =>
    cases item with
    | text value =>
      cases others : textItems field (index + 1) rest with
      | error found =>
        have none (texts : List String) : rest ≠ texts.map .text :=
          fun same => absurd (others.symm.trans (ih.2 same)) (by simp)
        cases texts <;> simp [textItems, others, none]
      | ok values =>
        obtain rfl := ih.1 others
        have inner (texts : List String) : values.map Entry.text = texts.map .text ↔ values = texts :=
          ⟨fun same => Except.ok.inj (others.symm.trans (ih.2 same)), fun same => same ▸ rfl⟩
        cases texts <;> simp [textItems, others, inner]
    | list entries => cases texts <;> simp [textItems]
    | other => cases texts <;> simp [textItems]

theorem mapM_checkFactory_eq_ok {texts : List String} {factories : List Factory} :
    texts.mapM checkFactory = .ok factories ↔ factories.map Factory.qualified = texts.map Text.trim := by
  induction texts generalizing factories with
  | nil => cases factories <;> simp [pure, Except.pure]
  | cons text rest ih =>
    rw [List.mapM_cons]
    constructor
    next =>
      intro checked
      obtain ⟨first, head, checked⟩ := bind_eq_ok.1 checked
      obtain ⟨others, tail, checked⟩ := bind_eq_ok.1 checked
      obtain rfl := Except.ok.inj checked
      rw [List.map_cons, List.map_cons, ih.1 tail, ((factory_decides.eq_ok _ _).1 head).1]
    next =>
      intro same
      cases factories with
      | nil => simp at same
      | cons first others =>
        rw [List.map_cons, List.map_cons, List.cons.injEq] at same
        rw [(factory_decides.eq_ok text first).2 ⟨same.1, first.isDotted⟩, ih.2 same.2]
        rfl

end Settings

end Graft
