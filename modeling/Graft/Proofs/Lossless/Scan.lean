import Graft.Proofs.Lossless.Block

set_option autoImplicit false

/-!
Scans lose nothing. What a scan takes of a text and what it leaves are the text again, and the leaves
of the tokens of a line are written out as the line was.
-/
namespace Graft

/-- The characters that leaves are written with. -/
def shown (layout : Layout) (leaves : List Leaf) : List Char :=
  leaves.flatMap fun leaf => (leaf.render layout).toList

theorem toList_renderLeaves (layout : Layout) (leaves : List Leaf) :
    (renderLeaves layout leaves).toList = shown layout leaves := by
  simp [renderLeaves, shown, String.toList_join, List.flatMap_map]

@[simp] theorem shown_nil (layout : Layout) : shown layout [] = [] := rfl

@[simp] theorem shown_cons (layout : Layout) (leaf : Leaf) (rest : List Leaf) :
    shown layout (leaf :: rest) = (leaf.render layout).toList ++ shown layout rest := rfl

@[simp] theorem shown_append (layout : Layout) (front back : List Leaf) :
    shown layout (front ++ back) = shown layout front ++ shown layout back :=
  List.flatMap_append

@[simp] theorem render_text (layout : Layout) (written : String) :
    Leaf.render layout (.text written) = written := rfl

@[simp] theorem render_lineEnd_none (layout : Layout) :
    Leaf.render layout (.lineEnd none) = layout.lineEnd := rfl

/-- Leaves that are all written somehow. -/
def AllShown (layout : Layout) (leaves : List Leaf) : Prop :=
  ∀ leaf ∈ leaves, (leaf.render layout).toList ≠ []

@[simp] theorem allShown_nil (layout : Layout) : AllShown layout [] := by simp [AllShown]

@[simp] theorem allShown_cons {layout : Layout} {leaf : Leaf} {rest : List Leaf} :
    AllShown layout (leaf :: rest) ↔ (leaf.render layout).toList ≠ [] ∧ AllShown layout rest := by
  simp [AllShown]

@[simp] theorem allShown_append {layout : Layout} {front back : List Leaf} :
    AllShown layout (front ++ back) ↔ AllShown layout front ∧ AllShown layout back := by
  simp only [AllShown, List.forall_mem_append]

theorem length_shown_le {layout : Layout} {part whole : List Leaf} (sub : part.Sublist whole) :
    (shown layout part).length ≤ (shown layout whole).length := by
  induction sub with
  | slnil => simp
  | cons leaf _ ih => simp; omega
  | cons_cons leaf _ ih => simpa using ih

/-- Where every leaf is written somehow, none can be missed. -/
theorem eq_of_shown_eq {layout : Layout} {part whole : List Leaf} (all : AllShown layout whole)
    (sub : part.Sublist whole) (same : shown layout part = shown layout whole) : part = whole := by
  induction sub with
  | slnil => rfl
  | @cons part whole leaf sub ih =>
    -- Without the leaf the text would be shorter.
    have less := @length_shown_le layout _ _ sub
    have some := List.length_pos_iff.2 (allShown_cons.1 all).1
    simp only [same, shown_cons, List.length_append] at less
    omega
  | cons_cons leaf _ ih =>
    rw [ih (allShown_cons.1 all).2 (List.append_cancel_left same)]

namespace Source

/-- What a scan takes and what it leaves are what it was given, and it takes texts of a sort. -/
def Splits (fine : Chars → Prop) (scan : Option (Chars × Chars)) (text : Chars) : Prop :=
  ∀ taken rest, scan = some (taken, rest) → taken ++ rest = text ∧ fine taken

namespace Splits

variable {fine : Chars → Prop} {scan : Option (Chars × Chars)} {text : Chars}

theorem none : Splits fine .none text := fun _ _ found => absurd found (by simp)

theorem some {taken rest : Chars} (same : taken ++ rest = text) (each : fine taken) :
    Splits fine (.some (taken, rest)) text := by
  intro other after found
  cases found
  exact ⟨same, each⟩

theorem map (splits : Splits fine scan text) (front : Chars)
    (grows : ∀ taken, fine taken → fine (front ++ taken)) :
    Splits fine (scan.map fun (taken, after) => (front ++ taken, after)) (front ++ text) := by
  intro taken rest found
  simp only [Option.map_eq_some_iff, Prod.mk.injEq] at found
  rcases found with ⟨⟨first, after⟩, before, rfl, rfl⟩
  have here := splits first after before
  exact ⟨by simp [here.1], grows first here.2⟩

theorem bind {inner : Chars} {known : Chars → Prop}
    {next : Chars × Chars → Option (Chars × Chars)} (splits : Splits known scan inner)
    (after : ∀ taken rest, taken ++ rest = inner → known taken →
      Splits fine (next (taken, rest)) text) :
    Splits fine (scan.bind next) text := by
  intro taken rest found
  simp only [Option.bind_eq_some_iff] at found
  rcases found with ⟨⟨first, middle⟩, early, late⟩
  have here := splits first middle early
  exact after first middle here.1 here.2 taken rest late

theorem ite {condition : Prop} [Decidable condition] {yes no : Option (Chars × Chars)}
    (holds : condition → Splits fine yes text) (fails : ¬ condition → Splits fine no text) :
    Splits fine (if condition then yes else no) text := by
  split
  next h => exact holds h
  next h => exact fails h

end Splits

@[simp] theorem shown_textLeaf (layout : Layout) (written : Chars) :
    shown layout (textLeaf written) = written := by
  cases written <;> simp [textLeaf]

@[simp] theorem render_breakLeaf (standard : String) (margins : Bool) (written : Chars) :
    (Leaf.render ⟨standard, margins⟩ (breakLeaf standard written)).toList = written := by
  by_cases same : String.ofList written = standard
  · subst same
    simp [breakLeaf, Leaf.render]
  · simp [breakLeaf, same, Leaf.render]

@[simp] theorem shown_marginLeaf (lineEnd : String) (margin : Chars) :
    shown ⟨lineEnd, true⟩ (marginLeaf margin) = margin := by
  cases margin <;> simp [marginLeaf, Leaf.render]

theorem allShown_textLeaf (layout : Layout) (written : Chars) : AllShown layout (textLeaf written) := by
  cases written <;> simp [textLeaf]

theorem allShown_marginLeaf (lineEnd : String) (margin : Chars) :
    AllShown ⟨lineEnd, true⟩ (marginLeaf margin) := by
  cases margin <;> simp [marginLeaf, Leaf.render]

theorem append_of_dropPrefix? {wanted text rest : Chars} (found : dropPrefix? wanted text = some rest) :
    wanted ++ rest = text := by
  induction wanted generalizing text with
  | nil => exact (Option.some.inj found).symm
  | cons c wanted ih =>
    cases text with
    | nil => simp [dropPrefix?] at found
    | cons d text =>
      rw [dropPrefix?] at found
      split at found
      next same => rw [same, List.cons_append, ih found]
      next => exact absurd found (by simp)

theorem blanks_append (text : Chars) : (blanks text).1 ++ (blanks text).2 = text := by
  fun_induction blanks text <;> simp_all

theorem comment_append (text : Chars) : (comment text).1 ++ (comment text).2 = text := by
  fun_cases comment text <;> simp

theorem breakAt?_splits (text : Chars) : 
    Splits (fun written => ∃ front c, written = front ++ [c] ∧ isBreak c = true) (breakAt? text) text := by
  fun_cases breakAt? text with
  | case1 => exact .some rfl ⟨['\r'], '\n', rfl, rfl⟩
  | case2 c rest _ is => exact .some rfl ⟨[], c, rfl, is⟩
  | case3 => exact .none
  | case4 => exact .none

theorem gapOnLine_append (layout : Layout) (text : Chars) :
    shown layout (gapOnLine text).1 ++ (gapOnLine text).2 = text := by
  simp [gapOnLine, comment_append, blanks_append]

theorem gapOnLine_allShown (layout : Layout) (text : Chars) : AllShown layout (gapOnLine text).1 :=
  allShown_textLeaf layout _

theorem gapInside_broken (setup : Setup) (fuel : Nat) {text written rest : Chars}
    (broken : breakAt? (gapOnLine text).2 = some (written, rest)) :
    ∃ margin after, shown ⟨setup.lineEnd, true⟩ margin ++ after = rest ∧
      AllShown ⟨setup.lineEnd, true⟩ margin ∧ gapInside setup (fuel + 1) text =
        ((gapOnLine text).1 ++ breakLeaf setup.lineEnd written :: margin ++
          (gapInside setup fuel after).1, (gapInside setup fuel after).2) := by
  cases skipped : dropPrefix? setup.margin rest with
  | none => exact ⟨[], rest, rfl, allShown_nil _, by simp [gapInside, broken, skipped]⟩
  | some after =>
    refine ⟨marginLeaf setup.margin, after, ?_, allShown_marginLeaf _ _, ?_⟩
    · simpa using append_of_dropPrefix? skipped
    · simp [gapInside, broken, skipped, marginLeaf]

theorem gapInside_append (setup : Setup) (fuel : Nat) (text : Chars) :
    shown ⟨setup.lineEnd, true⟩ (gapInside setup fuel text).1 ++ (gapInside setup fuel text).2 =
      text := by
  induction fuel generalizing text with
  | zero => simp [gapInside]
  | succ fuel ih =>
    have line := gapOnLine_append ⟨setup.lineEnd, true⟩ text
    cases broken : breakAt? (gapOnLine text).2 with
    | none => simpa [gapInside, broken] using line
    | some found =>
      have broke := (breakAt?_splits _ _ _ broken).1
      rcases gapInside_broken setup fuel broken with ⟨margin, after, same, -, step⟩
      simp [step, ih, same, broke, line]

theorem breakAt?_ne_nil {text written rest : Chars} (broken : breakAt? text = some (written, rest)) :
    written ≠ [] := by
  rcases (breakAt?_splits _ _ _ broken).2 with ⟨front, c, rfl, -⟩
  simp

theorem gapInside_allShown (setup : Setup) (fuel : Nat) (text : Chars) :
    AllShown ⟨setup.lineEnd, true⟩ (gapInside setup fuel text).1 := by
  induction fuel generalizing text with
  | zero => simp [gapInside]
  | succ fuel ih =>
    have line := gapOnLine_allShown ⟨setup.lineEnd, true⟩ text
    cases broken : breakAt? (gapOnLine text).2 with
    | none => simpa [gapInside, broken] using line
    | some found =>
      rcases gapInside_broken setup fuel broken with ⟨margin, after, -, each, step⟩
      simp [step, ih, each, line, breakAt?_ne_nil broken]

abbrev Inline (c : Char) : Prop := isBreak c = false

theorem inline_of {accept : Char → Bool} (newline : accept '\n' = false) (back : accept '\r' = false)
    {c : Char} (is : accept c = true) : Inline c := by
  cases ends : isBreak c with
  | false => exact ends
  | true =>
    simp only [isBreak, Bool.or_eq_true, beq_iff_eq] at ends
    rcases ends with rfl | rfl
    · exact absurd is (by simp [newline])
    · exact absurd is (by simp [back])

def AllInline (text : Chars) : Prop := ∀ c ∈ text, Inline c

theorem AllInline.append {front text : Chars} (before : AllInline front) (after : AllInline text) :
    AllInline (front ++ text) := by
  intro c mem
  rcases List.mem_append.1 mem with mem | mem
  · exact before c mem
  · exact after c mem

theorem allInline_nil : AllInline [] := by simp [AllInline]

theorem allInline_cons {c : Char} {text : Chars} (first : Inline c) (rest : AllInline text) :
    AllInline (c :: text) := by
  simpa [AllInline] using ⟨first, rest⟩

namespace Number

section

variable {digit : Char → Bool} (newline : digit '\n' = false) (back : digit '\r' = false)

include newline back

theorem group_splits (text : Chars) : Splits AllInline (group digit text) text := by
  fun_induction group digit text with
  | case1 c rest is ih =>
    exact ih.map ['_', c] fun _ each =>
      allInline_cons (by decide) (allInline_cons (inline_of newline back is) each)
  | case2 => exact .none
  | case3 => exact .none
  | case4 c rest _ _ is ih =>
    exact ih.map [c] fun _ each => allInline_cons (inline_of newline back is) each
  | case5 => exact .some rfl allInline_nil
  | case6 => exact .some rfl allInline_nil

theorem inBase_splits (text : Chars) : Splits AllInline (inBase digit text) text :=
  (group_splits newline back text).bind fun _ _ same each => .ite (fun _ => .none) fun _ =>
    .some same each

end

theorem group_ne_nil {digit : Char → Bool} {c : Char} {text taken rest : Chars}
    (is : digit c = true) (plain : c ≠ '_') (found : group digit (c :: text) = some (taken, rest)) :
    taken ≠ [] := by
  unfold group at found
  split at found
  next same => exact absurd (List.cons.inj same).1 plain
  next same => exact absurd (List.cons.inj same).1 plain
  next d after _ _ same =>
    cases same
    rw [if_pos is, Option.map_eq_some_iff] at found
    rcases found with ⟨first, -, same⟩
    cases same
    simp
  next same => cases same

theorem digits_splits (text : Chars) :
    Splits (fun taken => AllInline taken ∧ (text.head?.any Char.isDigit = true → taken ≠ []))
      (digits text) text := by
  fun_cases digits text with
  | case1 c text is =>
    intro taken rest found
    have splits := group_splits rfl rfl _ taken rest found
    exact ⟨splits.1, splits.2, fun _ => group_ne_nil is (by rintro rfl; cases is) found⟩
  | case2 c text isnt => exact .some rfl ⟨allInline_nil, by simp [isnt]⟩
  | case3 => exact .some rfl ⟨allInline_nil, by simp⟩

theorem fraction_splits (text : Chars) :
    Splits (fun taken => AllInline taken ∧ (text.head? = some '.' → taken ≠ [])) (fraction text) text := by
  fun_cases fraction text with
  | case1 rest =>
    exact (digits_splits rest).bind fun taken after same each =>
      .some (congrArg ('.' :: ·) same) ⟨allInline_cons (by decide) each.1, by simp⟩
  | case2 text other =>
    refine .some rfl ⟨allInline_nil, fun point => ?_⟩
    cases text with
    | nil => cases point
    | cons c text =>
      cases point
      exact absurd rfl (other text)

theorem exponent_splits (text : Chars) : Splits AllInline (exponent text) text := by
  fun_cases exponent text with
  | case1 c is d rest sign =>
    have first : Inline c := inline_of rfl rfl is
    have second : Inline d := inline_of rfl rfl sign
    exact (digits_splits rest).bind fun _ _ same each => .ite (fun _ => .none) fun _ =>
      .some (congrArg (c :: d :: ·) same) (allInline_cons first (allInline_cons second each.1))
  | case2 c is d rest sign =>
    have first : Inline c := inline_of rfl rfl is
    exact (digits_splits _).bind fun _ _ same each => .ite (fun _ => .some rfl allInline_nil) fun _ =>
      .some (congrArg (c :: ·) same) (allInline_cons first each.1)
  | case3 => exact .some rfl allInline_nil
  | case4 => exact .some rfl allInline_nil
  | case5 => exact .some rfl allInline_nil

theorem unit_append (text : Chars) :
    (unit text).1 ++ (unit text).2 = text ∧ AllInline (unit text).1 := by
  fun_cases unit text with
  | case1 c rest is => exact ⟨rfl, allInline_cons (inline_of rfl rfl is) allInline_nil⟩
  | case2 => exact ⟨rfl, allInline_nil⟩
  | case3 => exact ⟨rfl, allInline_nil⟩

theorem afterWhole_splits {whole text : Chars} (before : AllInline whole) :
    Splits (fun taken => AllInline taken ∧ (whole ≠ [] ∨ text.head? = some '.' → taken ≠ []))
      (afterWhole whole text) (whole ++ text) := by
  refine (fraction_splits text).bind fun point rest first fine => (exponent_splits rest).bind
    fun power rest' second strong => .some ?_ ⟨?_, ?_⟩
  · change whole ++ point ++ power ++ (unit rest').1 ++ (unit rest').2 = whole ++ text
    rw [List.append_assoc _ (unit rest').1, (unit_append rest').1, ← first, ← second]
    simp
  · exact ((before.append fine.1).append strong).append (unit_append rest').2
  · rintro (some | point)
    · simp [some]
    · simp [fine.2 point]

theorem scan_splits {text : Chars} (starts : startsNumber text = true) :
    Splits (fun taken => taken ≠ [] ∧ AllInline taken) (scan text) text := by
  have based {digit : Char → Bool} (newline : digit '\n' = false) (back : digit '\r' = false)
      {c : Char} (inside : Inline c) (rest : Chars) :
      Splits (fun taken => taken ≠ [] ∧ AllInline taken)
        ((inBase digit rest).map fun (taken, after) => ('0' :: c :: taken, after))
          ('0' :: c :: rest) := by
    intro taken after found
    have splits := (inBase_splits newline back rest).map ['0', c] (fun _ each =>
      allInline_cons (by decide) (allInline_cons inside each)) taken after found
    refine ⟨splits.1, ?_, splits.2⟩
    rcases Option.map_eq_some_iff.1 found with ⟨first, -, same⟩
    cases same
    simp
  fun_cases scan text with
  | case1 c rest _ is => exact based rfl rfl (inline_of rfl rfl is) rest
  | case2 c rest _ _ is => exact based rfl rfl (inline_of rfl rfl is) rest
  | case3 c rest _ _ _ is => exact based rfl rfl (inline_of rfl rfl is) rest
  | case4 c rest =>
    refine (digits_splits _).bind fun whole after first before => ?_
    refine (afterWhole_splits before.1).bind fun taken after' second each => ?_
    refine .ite (fun _ => .none) fun _ => .some (second.trans first) ⟨?_, each.1⟩
    exact each.2 (.inl (before.2 rfl))
  | case5 =>
    refine (digits_splits _).bind fun whole rest same before => ?_
    intro taken after found
    have splits := afterWhole_splits before.1 taken after found
    refine ⟨splits.1.trans same, splits.2.2 ?_, splits.2.1⟩
    cases whole with
    | cons c whole => exact .inl (by simp)
    | nil =>
      -- No digit stands in front, so a point does.
      refine .inr ?_
      rw [show rest = text from same]
      fun_cases startsNumber text with
      | case1 => rfl
      | case2 c text => exact absurd rfl (before.2 (by simpa [startsNumber] using starts))
      | case3 => cases starts

end Number

theorem Quote.chars_ne_nil (quote : Quote) : quote.chars ≠ [] := by
  unfold Quote.chars
  split <;> simp

theorem quoteAt?_append {raw : Bool} {text rest : Chars} {quote : Quote}
    (found : quoteAt? raw text = some (quote, rest)) : quote.chars ++ rest = text := by
  unfold quoteAt? at found
  split at found
  next c d e rest' =>
    split at found
    next =>
      split at found
      next same => cases found; simp [Quote.chars, same]
      next => cases found; simp [Quote.chars]
    next => cases found
  next c rest' _ =>
    split at found
    next => cases found; simp [Quote.chars]
    next => cases found
  next => cases found

theorem plainText_splits (quote : Quote) (text : Chars) :
    Splits (fun taken => ∃ front, taken = front ++ quote.chars) (plainText quote text) text := by
  have grows (more : Chars) : ∀ taken, (∃ front, taken = front ++ quote.chars) →
      ∃ front, more ++ taken = front ++ quote.chars := by
    rintro _ ⟨front, rfl⟩
    exact ⟨more ++ front, by simp⟩
  fun_induction plainText quote text with
  | case1 => exact .none
  | case2 rest ih => exact ih.map ['\\', '\r', '\n'] (grows _)
  | case3 c rest _ ih => exact ih.map ['\\', c] (grows _)
  | case4 c rest after _ _ closed => exact .some (append_of_dropPrefix? closed) ⟨[], rfl⟩
  | case5 => exact .none
  | case6 c rest _ _ _ _ ih => exact ih.map [c] (grows _)

/-- A scan of the text of a literal, whatever characters are in it. -/
abbrev SplitsAny : Option (Chars × Chars) → Chars → Prop := Splits fun _ => True

theorem fieldText_splits (quote : Quote) (named : Bool) (text : Chars) :
    SplitsAny (fieldText quote named text) text := by
  fun_induction fieldText quote named text with
  | case1 => exact .none
  | case2 named raw c rest is ih => exact ih.map ['\\', c] (by simp)
  | case3 named raw c rest is ih => exact ih.map ['\\'] (by simp)
  | case4 => exact .none
  | case5 named raw rest ih => exact ih.map ['\\', 'N', '\x7b'] (by simp)
  | case6 named raw rest ih => exact ih.map ['\\', '\r', '\n'] (by simp)
  | case7 named raw c rest _ _ ih => exact ih.map ['\\', c] (by simp)
  | case8 => exact .none
  | case9 named rest ih => exact ih.map ['\x7b', '\x7b'] (by simp)
  | case10 => exact .some rfl (by simp)
  | case11 rest ih => exact ih.map ['\x7d'] (by simp)
  | case12 named _ rest ih => exact ih.map ['\x7d', '\x7d'] (by simp)
  | case13 => exact .none
  | case14 => exact .some rfl (by simp)
  | case15 => exact .none
  | case16 named c rest _ _ _ _ _ _ ih => exact ih.map [c] (by simp)

theorem formatText_splits (quote : Quote) (text : Chars) :
    SplitsAny (formatText quote text) text := by
  fun_induction formatText quote text with
  | case1 => exact .none
  | case2 c rest is ih => exact ih.map ['\\'] (by simp)
  | case3 c rest is ih => exact ih.map ['\\', c] (by simp)
  | case4 => exact .some rfl (by simp)
  | case5 => exact .none
  | case6 c rest _ _ _ ih => exact ih.map [c] (by simp)

theorem operatorAt?_splits (text : Chars) :
    Splits (fun taken => taken ≠ [] ∧ AllInline taken) (operatorAt? text) text := by
  intro taken rest found
  rcases List.exists_of_findSome?_eq_some found with ⟨operator, listed, here⟩
  simp only [Option.map_eq_some_iff, Prod.mk.injEq] at here
  rcases here with ⟨after, dropped, rfl, rfl⟩
  have all : (operators.all fun operator =>
      !operator.isEmpty && operator.all fun c => !isBreak c) = true := by decide +kernel
  have fine := List.all_eq_true.1 all operator listed
  simp only [Bool.and_eq_true, Bool.not_eq_true', List.isEmpty_eq_false_iff, List.all_eq_true] at fine
  exact ⟨append_of_dropPrefix? dropped, fine⟩

def EndsInline (text : Chars) : Prop := ∃ front c, text = front ++ [c] ∧ Inline c

theorem EndsInline.append {text : Chars} (ends : EndsInline text) (front : Chars) :
    EndsInline (front ++ text) := by
  rcases ends with ⟨before, c, rfl, inside⟩
  exact ⟨front ++ before, c, by simp, inside⟩

theorem endsInline_of_forall {text : Chars} (some : text ≠ []) (each : ∀ c ∈ text, Inline c) :
    EndsInline text := by
  refine ⟨text.dropLast, text.getLast some, (List.dropLast_concat_getLast some).symm, ?_⟩
  exact each _ (List.getLast_mem some)

/-- The frames of a scan wait for characters that end no line. -/
def Frame.isSound : Frame → Bool
  | .bracket closing => !isBreak closing
  | .literal quote => !isBreak quote.mark
  | _ => true

@[simp] theorem Frame.isSound_field : Frame.field.isSound = true := rfl

@[simp] theorem Frame.isSound_format : Frame.format.isSound = true := rfl

theorem Quote.endsInline {quote : Quote} (sound : (Frame.literal quote).isSound = true) :
    EndsInline quote.chars := by
  have inside : Inline quote.mark := by simpa [Frame.isSound] using sound
  unfold Quote.chars
  split
  · exact ⟨[quote.mark, quote.mark], quote.mark, rfl, inside⟩
  · exact ⟨[], quote.mark, rfl, inside⟩

theorem quoteAt?_sound {raw : Bool} {text rest : Chars} {quote : Quote}
    (found : quoteAt? raw text = some (quote, rest)) : (Frame.literal quote).isSound = true := by
  have inside {c : Char} (is : isQuote c = true) : isBreak c = false := inline_of rfl rfl is
  unfold quoteAt? at found
  split at found
  next c d e rest' =>
    split at found
    next is => split at found <;> cases found <;> simp [Frame.isSound, inside is]
    next => cases found
  next c rest' _ =>
    split at found
    next is => cases found; simp [Frame.isSound, inside is]
    next => cases found
  next => cases found

/-- A token that a scan takes of a text, with what it goes on with. -/
structure Taken.Fits (taken : Taken) (text : Chars) : Prop where
  split : taken.text ++ taken.rest = text
  present : taken.text ≠ []
  sound : ∀ frame ∈ taken.frames, frame.isSound = true
  -- Outside of all frames a text may end here, and then its last line is not ended.
  ends : taken.frames = [] → EndsInline taken.text

/-- A token outside the text of formatted literals, where there may be gaps. -/
structure Taken.FitsOutside (taken : Taken) (text : Chars) : Prop extends taken.Fits text where
  outside : taken.sort ≠ .literalText ∧ taken.sort ≠ .literalEnd

section

variable {frames : List Frame} {text : Chars} {taken : Taken}
  (sound : ∀ frame ∈ frames, frame.isSound = true)

include sound

omit sound in
theorem fits_single {c : Char} {rest : Chars} (each : ∀ frame ∈ frames, frame.isSound = true)
    (inside : frames = [] → Inline c) :
    (⟨.operator, [c], frames, rest⟩ : Taken).FitsOutside (c :: rest) :=
  ⟨⟨rfl, by simp, each, fun none => ⟨[], c, rfl, inside none⟩⟩, by simp⟩

theorem bracketAt?_fits (found : bracketAt? frames text = some taken) : taken.FitsOutside text := by
  unfold bracketAt? at found
  split at found
  next => cases found
  next c rest =>
    split at found
    next closing opened =>
      cases found
      -- No bracket is a line break, so the frame is sound.
      have inside : isBreak closing = false := by
        unfold closingOf? at opened
        split at opened <;> try cases opened; rfl
        split at opened <;> try cases opened; rfl
        split at opened <;> cases opened
        rfl
      refine fits_single ?_ (by simp)
      simpa [Frame.isSound, inside] using sound
    next =>
      split at found
      next closing outer =>
        rw [List.forall_mem_cons] at sound
        split at found
        next same =>
          cases found
          exact fits_single sound.2 fun _ => by simpa [same, Frame.isSound] using sound.1
        next => cases found
      next outer =>
        split at found
        next same =>
          cases found
          exact fits_single (List.forall_mem_cons.1 sound).2 fun _ => same ▸ rfl
        next =>
          split at found
          next =>
            cases found
            exact fits_single (by simpa using sound) (by simp)
          next =>
            split at found
            next => cases found; exact fits_single sound (by simp)
            next => cases found
      next => cases found

theorem literalAt?_fits {letters : Chars} {kind : Lettering}
    (found : literalAt? letters kind frames text = some taken) :
    taken.FitsOutside (letters ++ text) := by
  cases kind with
  | plain =>
    simp only [literalAt?, Option.bind_eq_bind, Option.bind_eq_some_iff] at found
    rcases found with ⟨⟨quote, rest⟩, opened, ⟨written, after⟩, closed, same⟩
    cases same
    have quoted := quoteAt?_append opened
    rcases plainText_splits quote rest written after closed with ⟨split, front, rfl⟩
    refine ⟨⟨?_, by simp [Quote.chars_ne_nil], sound, fun _ => ?_⟩, by simp⟩
    · simp [← quoted, ← split]
    · simpa using (quote.endsInline (quoteAt?_sound opened)).append (letters ++ quote.chars ++ front)
  | formatted raw =>
    simp only [literalAt?, Option.bind_eq_bind, Option.bind_eq_some_iff] at found
    rcases found with ⟨⟨quote, rest⟩, opened, same⟩
    cases same
    refine ⟨⟨by simp [← quoteAt?_append opened], by simp [Quote.chars_ne_nil], ?_, by simp⟩, by simp⟩
    simpa using ⟨quoteAt?_sound opened, sound⟩

theorem wordAt?_fits (found : wordAt? frames text = some taken) : taken.FitsOutside text := by
  have split := List.takeWhile_append_dropWhile (p := isNamePart) (l := text)
  unfold wordAt? at found
  dsimp only at found
  split at found
  next => exact split ▸ literalAt?_fits sound found
  next =>
    split at found
    next spelled =>
      cases found
      have present : text.takeWhile isNamePart ≠ [] := by
        intro none
        rw [none] at spelled
        cases spelled
      refine ⟨⟨split, present, sound, fun _ => endsInline_of_forall present fun c mem => ?_⟩, by simp⟩
      exact inline_of rfl rfl (List.all_eq_true.1 List.all_takeWhile c mem)
    next => cases found

theorem plainToken?_fits (found : plainToken? frames text = some taken) : taken.FitsOutside text := by
  unfold plainToken? at found
  split at found
  next => cases found
  next c rest =>
    split at found
    next => exact wordAt?_fits sound found
    next =>
      split at found
      next => exact literalAt?_fits sound found
      next =>
        split at found
        next starts =>
          rcases Option.map_eq_some_iff.1 found with ⟨⟨written, after⟩, scanned, same⟩
          cases same
          have splits := Number.scan_splits starts _ _ scanned
          exact ⟨⟨splits.1, splits.2.1, sound, fun _ => endsInline_of_forall splits.2.1 splits.2.2⟩, by simp⟩
        next =>
          split at found
          next bracket => cases found; exact bracketAt?_fits sound bracket
          next =>
            split at found
            next => cases found
            next =>
              rcases Option.map_eq_some_iff.1 found with ⟨⟨written, after⟩, scanned, same⟩
              cases same
              have splits := operatorAt?_splits _ _ _ scanned
              exact ⟨⟨splits.1, splits.2.1, sound, fun _ => endsInline_of_forall splits.2.1 splits.2.2⟩, by simp⟩

theorem literalToken?_fits {quote : Quote} (within : (Frame.literal quote).isSound = true)
    (found : literalToken? quote frames text = some taken) : taken.Fits text := by
  simp only [literalToken?, Option.bind_eq_bind, Option.bind_eq_some_iff] at found
  rcases found with ⟨⟨written, rest⟩, scanned, found⟩
  have split := (fieldText_splits quote false text written rest scanned).1
  split at found
  next empty =>
    cases List.isEmpty_iff.1 empty
    cases split
    dsimp only at found
    split at found
    next after closed =>
      cases found
      exact ⟨append_of_dropPrefix? closed, quote.chars_ne_nil, sound, fun _ => quote.endsInline within⟩
    next =>
      split at found
      next => cases found; exact ⟨rfl, by simp, by simpa [within] using sound, by simp⟩
      next => cases found
  next present =>
    cases found
    exact ⟨split, by simpa using present, by simpa [within] using sound, by simp⟩

theorem formatToken?_fits (found : formatToken? frames text = some taken) : taken.Fits text := by
  simp only [formatToken?, Option.bind_eq_bind, Option.bind_eq_some_iff] at found
  rcases found with ⟨quote, -, ⟨written, rest⟩, scanned, found⟩
  have split := (formatText_splits quote text written rest scanned).1
  split at found
  next empty =>
    cases List.isEmpty_iff.1 empty
    cases split
    dsimp only at found
    split at found
    next => cases found; exact ⟨rfl, by simp, by simpa using sound, by simp⟩
    next =>
      cases found
      exact ⟨rfl, by simp, fun frame mem => sound frame (List.mem_of_mem_tail mem),
        fun _ => ⟨[], '\x7d', rfl, rfl⟩⟩
    next => cases found
  next present =>
    cases found
    exact ⟨split, by simpa using present, by simpa using sound, by simp⟩

end

end Source

end Graft
