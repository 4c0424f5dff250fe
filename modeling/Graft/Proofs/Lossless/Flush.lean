import Graft.Module
import Graft.Proofs.Lossless.Line

set_option autoImplicit false

/-!
What is written of the lines of a source is the source only if every line begins with its margin, and
it never begins with a byte order mark.
-/
namespace Graft.Source

def AllSpace (text : Chars) : Prop := ∀ c ∈ text, isSpace c = true

theorem isSpace_cases {c : Char} (is : isSpace c = true) : c = ' ' ∨ c = '\t' ∨ c = '\x0c' := by
  simpa [isSpace, or_assoc] using is

theorem isBreak_cases {c : Char} (is : isBreak c = true) : c = '\n' ∨ c = '\r' := by
  simpa [isBreak] using is

theorem measure_blanks_space (text : Chars) (column narrow hidden : Nat) {written : Chars}
    (each : AllSpace written) :
    AllSpace (Indent.measure column narrow hidden written (blanks text).1).text := by
  have spent (column narrow hidden : Nat) {written : Chars} (each : AllSpace written) :
      AllSpace (Indent.measure column narrow hidden written []).text := by
    rw [Indent.measure]
    split <;> exact each
  have none : AllSpace [] := by simp [AllSpace]
  -- A hidden line end starts the text again, and only spaces are added to it.
  fun_induction blanks text generalizing column narrow hidden written with
  | case1 => exact spent _ _ _ each
  | case2 rest _ gap after split ih =>
    simpa [Indent.measure, isBreak, split] using ih _ _ _ none
  | case3 c rest _ more gap after split ih =>
    rcases isBreak_cases (Bool.and_eq_true_iff.1 more).1 with rfl | rfl <;>
      simpa [Indent.measure, isBreak, split] using ih _ _ _ none
  | case4 => exact spent _ _ _ each
  | case5 c rest _ _ space gap after split ih =>
    have next : AllSpace (written ++ [c]) := by
      simpa [AllSpace, List.forall_mem_append, or_imp, forall_and] using ⟨each, space⟩
    rcases isSpace_cases space with rfl | rfl | rfl <;>
      simpa [Indent.measure, split] using ih _ _ _ next
  | case6 => exact spent _ _ _ each
  | case7 => exact spent _ _ _ each

theorem ofBlanks_space {front rest : Chars} (split : blanks (front ++ rest) = (front, rest)) :
    AllSpace (Indent.ofBlanks front).text := by
  have space := @measure_blanks_space (front ++ rest) 0 0 0 [] (by simp [AllSpace])
  rwa [split] at space

/-- The open blocks are indented with spaces. -/
def Indent.AllSpace (stack : Indent.Stack) : Prop := ∀ block ∈ stack, Source.AllSpace block.text

theorem Indent.AllSpace.enter {indent : Indent} {stack inner : Indent.Stack}
    (each : Indent.AllSpace stack) (space : Source.AllSpace indent.text)
    (entered : Indent.enter? indent stack = some inner) : Indent.AllSpace inner := by
  simp only [Indent.enter?] at entered
  split at entered
  next =>
    split at entered <;> cases entered
    exact each
  next =>
    split at entered
    next =>
      split at entered <;> cases entered
      exact List.forall_mem_cons.2 ⟨space, each⟩
    next =>
      split at entered <;> cases entered
      exact fun block mem => each block ((List.dropWhile_sublist _).subset mem)

theorem Indent.AllSpace.top {stack : Indent.Stack} (each : Indent.AllSpace stack) :
    Source.AllSpace (Indent.top stack).text := by
  cases stack with
  | nil => simp [Indent.top, Indent.zero, Source.AllSpace]
  | cons block stack => exact each block (by simp)

/-- Blanks are spaces up to the first hidden line end. -/
theorem blanks_spaces (text : Chars) : ∃ spaces hidden, (blanks text).1 = spaces ++ hidden ∧
    AllSpace spaces ∧ (hidden = [] ∨ hidden.head? = some '\\') := by
  fun_induction blanks text with
  | case1 => exact ⟨[], [], rfl, by simp [AllSpace], .inl rfl⟩
  | case2 rest _ gap => exact ⟨[], '\\' :: '\r' :: '\n' :: gap, rfl, by simp [AllSpace], .inr rfl⟩
  | case3 c _ _ _ gap => exact ⟨[], '\\' :: c :: gap, rfl, by simp [AllSpace], .inr rfl⟩
  | case4 => exact ⟨[], [], rfl, by simp [AllSpace], .inl rfl⟩
  | case5 c rest _ _ space gap after split ih =>
    rcases ih with ⟨spaces, hidden, same, each, either⟩
    rw [split] at same
    exact ⟨c :: spaces, hidden, congrArg (c :: ·) same, List.forall_mem_cons.2 ⟨space, each⟩, either⟩
  | case6 => exact ⟨[], [], rfl, by simp [AllSpace], .inl rfl⟩
  | case7 => exact ⟨[], [], rfl, by simp [AllSpace], .inl rfl⟩

theorem blanks_eq_of_append {front margin rest after other : Chars} {c : Char}
    (split : blanks (front ++ c :: rest) = (front, c :: rest)) (space : AllSpace margin)
    (solid : isSpace c = false) (visible : c ≠ '\\')
    (same : margin ++ c :: after = front ++ c :: other) : front = margin := by
  rcases blanks_spaces (front ++ c :: rest) with ⟨spaces, hidden, whole, each, either⟩
  rw [show front = spaces ++ hidden by simpa [split] using whole] at same ⊢
  have reach := congrArg (List.takeWhile isSpace) same
  rw [List.append_assoc, List.takeWhile_append_of_pos space, List.takeWhile_append_of_pos each,
    List.takeWhile_cons_of_neg (by simp [solid])] at reach
  rcases either with rfl | head
  · simpa [solid] using reach.symm
  · -- A hidden line end would stand where the token does.
    rcases List.head?_eq_some_iff.1 head with ⟨more, rfl⟩
    rw [List.cons_append, List.takeWhile_cons_of_neg (by decide), List.append_nil,
      List.append_nil] at reach
    rw [reach, List.append_assoc] at same
    exact absurd (List.cons.inj (List.append_cancel_left same)).1 visible

/-- A text that no byte order mark stands in front of. -/
def Unmarked (text : Chars) : Prop := text.head? ≠ some Module.byteOrderMark

instance (text : Chars) : Decidable (Unmarked text) :=
  inferInstanceAs (Decidable (text.head? ≠ some Module.byteOrderMark))

theorem Unmarked.nil : Unmarked [] := by simp [Unmarked]

theorem unmarked_cons {c : Char} {rest : Chars} : Unmarked (c :: rest) ↔ c ≠ Module.byteOrderMark := by
  simp [Unmarked]

theorem Unmarked.append {front back : Chars} (first : Unmarked front) (second : Unmarked back) :
    Unmarked (front ++ back) := by
  cases front with
  | nil => exact second
  | cons c front => exact first

theorem Unmarked.of_append {front back : Chars} (whole : Unmarked (front ++ back)) :
    Unmarked front := by
  cases front with
  | nil => exact .nil
  | cons c front => exact whole

theorem AllSpace.unmarked {text : Chars} (space : AllSpace text) : Unmarked text := by
  cases text with
  | nil => exact .nil
  | cons c text =>
    rw [unmarked_cons]
    rintro rfl
    exact absurd (space Module.byteOrderMark (by simp)) (by decide)

theorem gapOnLine_unmarked (layout : Layout) (text : Chars) :
    Unmarked (shown layout (gapOnLine text).1) := by
  have blank : Unmarked (blanks text).1 := by
    rcases blanks_spaces text with ⟨spaces, hidden, same, space, either⟩
    rw [same]
    refine space.unmarked.append ?_
    rcases either with rfl | head
    · exact .nil
    · rw [Unmarked, head]
      decide
  have remark : Unmarked (comment (blanks text).2).1 := by
    fun_cases comment (blanks text).2 with
    | case1 => rw [unmarked_cons]; decide
    | case2 => exact .nil
  simpa [gapOnLine] using blank.append remark

theorem breakAt?_unmarked {text written rest : Chars}
    (broken : breakAt? text = some (written, rest)) : Unmarked written := by
  unfold breakAt? at broken
  split at broken
  next => cases broken; rw [unmarked_cons]; decide
  next c _ _ =>
    split at broken
    next is =>
      cases broken
      rcases isBreak_cases is with rfl | rfl <;> rw [unmarked_cons] <;> decide
    next => cases broken
  next => cases broken

theorem plainToken?_start {c : Char} {rest : Chars} {taken : Taken}
    (found : plainToken? [] (c :: rest) = some taken) :
    isSpace c = false ∧ c ≠ '\\' ∧ c ≠ Module.byteOrderMark := by
  refine ⟨?_, ?_, ?_⟩
  · cases space : isSpace c with
    | false => rfl
    | true => rcases isSpace_cases space with rfl | rfl | rfl <;> cases found
  · rintro rfl
    cases found
  · rintro rfl
    -- A byte order mark is taken for the start of a word, but it spells none.
    have name : (Module.byteOrderMark :: rest).takeWhile isNamePart =
        Module.byteOrderMark :: rest.takeWhile isNamePart := List.takeWhile_cons_of_pos (by decide)
    have letters : lettering? (Module.byteOrderMark :: rest.takeWhile isNamePart) = none := rfl
    have word : plainToken? [] (Module.byteOrderMark :: rest) =
        wordAt? [] (Module.byteOrderMark :: rest) := by rw [plainToken?, if_pos (by decide)]
    have spelled : spellsIdentifier (Module.byteOrderMark :: rest.takeWhile isNamePart) = false := by
      rw [spellsIdentifier, show Text.Letter.isStart Module.byteOrderMark = false by decide +kernel]
      rfl
    simp [word, wordAt?, name, letters, spelled] at found

variable {lineEnd : String} {setup : Setup}

theorem tokens?_start {fuel : Nat} {text rest : Chars} {tokens : List Token} {trail : List Leaf}
    (bare : gapOnLine text = ([], text)) (present : text ≠ []) (inside : breakAt? text = none)
    (read : tokens? setup fuel [] text = some (tokens, trail, rest)) :
    ∃ c before after, text = c :: before ∧
      shown ⟨setup.lineEnd, true⟩ (tokens.flatMap Token.leaves ++ trail) = c :: after ∧
        isSpace c = false ∧ c ≠ '\\' ∧ c ≠ Module.byteOrderMark := by
  cases fuel with
  | zero => cases read
  | succ fuel =>
    cases scanned_of_tokens? (by simp) read with
    | stop _ all =>
      rw [bare] at all
      exact absurd all present
    | line _ broken =>
      rw [bare, inside] at broken
      cases broken
    | @token gap inner _ taken others trail start plain before _ _ fits _ more =>
      -- Nothing stands before the token, so it begins the text.
      have none : gap = [] := by rw [start rfl, bare]
      subst none
      cases before
      cases opening : taken.text with
      | nil => exact absurd opening fits.present
      | cons c written =>
        have split := fits.split
        rw [opening, List.cons_append] at split
        have found := plain rfl
        rw [← split] at found
        exact ⟨c, _, _, by simpa using split.symm, by simp [Token.leaves, Taken.token, opening]; rfl,
          plainToken?_start found⟩

theorem isFlush_nil (fuel : Nat) (stack : Indent.Stack) : isFlush lineEnd fuel stack [] = true := by
  cases fuel <;> rfl

variable {fuel : Nat} {stack : Indent.Stack} {above : List Blank} {text : Chars} {source : Lines}

/-- If what is written of the lines of a source begins as the source does, then every line begins with
its margin. -/
theorem isFlush_of_shown {others more : Chars} (space : Indent.AllSpace stack)
    (read : linesFrom? lineEnd fuel stack above text = some source)
    (same : shown ⟨lineEnd, true⟩ (source.lines.flatMap Line.leaves) ++ others =
      shown ⟨lineEnd, true⟩ (above.flatMap Blank.leaves) ++ text ++ more) :
    isFlush lineEnd fuel stack text = true := by
  induction fuel generalizing stack above text source with
  | zero => rfl
  | succ fuel ih =>
    cases lined_of_linesFrom? read with
    | done => exact isFlush_nil _ _
    | last _ _ flush => exact flush
    | blank _ _ flush further =>
      rw [flush]
      exact ih space further (by simpa [Blank.leaves] using same)
    | @line front rest after inner tokens trail source entered split bare present inside flush tokenized
        further =>
      have deeper := space.enter (ofBlanks_space split) entered
      rcases tokens?_start bare present inside tokenized with ⟨c, u, v, rfl, start, solid, visible, -⟩
      have whole := tokens?_shown (by simp) tokenized
      simp only [List.flatMap_cons, Line.leaves, Line.before, shown_append, shown_marginLeaf,
        List.append_assoc, List.append_cancel_left_eq] at same start whole
      rw [← List.append_assoc (shown _ (tokens.flatMap _)), start] at same
      -- Both texts go on with the same token, so that the blanks before it are the same.
      have margin := blanks_eq_of_append split deeper.top solid visible same
      rw [flush, Bool.and_eq_true, beq_iff_eq]
      refine ⟨margin, ?_⟩
      rw [margin, List.append_cancel_left_eq, ← start] at same
      cases after with
      | nil => exact isFlush_nil _ _
      | cons d after =>
        rw [if_neg (by simp), List.append_nil] at whole
        refine ih deeper further ?_
        rw [← whole, List.append_assoc, List.append_assoc, List.append_cancel_left_eq] at same
        simpa using same

/-- What is written of a source never begins with a byte order mark. -/
theorem linesFrom?_unmarked (standard : Unmarked lineEnd.toList)
    (read : linesFrom? lineEnd fuel stack above text = some source) (space : Indent.AllSpace stack)
    (before : Unmarked (shown ⟨lineEnd, true⟩ (above.flatMap Blank.leaves))) :
    Unmarked (shown ⟨lineEnd, true⟩ source.leaves) := by
  induction fuel generalizing stack above text source with
  | zero => cases read
  | succ fuel ih =>
    cases lined_of_linesFrom? read with
    | done => simpa [Lines.leaves] using before
    | last gapped =>
      have blank := gapOnLine_unmarked ⟨lineEnd, true⟩ text
      rw [gapped, shown_textLeaf] at blank
      simpa [Lines.leaves, Blank.leaves] using before.append (blank.append standard)
    | @blank front written after _ gapped broken _ further =>
      have blank := gapOnLine_unmarked ⟨lineEnd, true⟩ (front ++ written ++ after)
      rw [gapped, shown_textLeaf] at blank
      refine ih further space ?_
      simpa [Blank.leaves] using before.append (blank.append (breakAt?_unmarked broken))
    | line entered split bare present inside _ tokenized further =>
      have deeper := space.enter (ofBlanks_space split) entered
      rcases tokens?_start bare present inside tokenized with ⟨c, u, v, rfl, start, -, -, unmarked⟩
      have tail := ih further deeper .nil
      have line : Unmarked (c :: v) := unmarked_cons.2 unmarked
      rw [← start] at line
      have whole := before.append (deeper.top.unmarked.append (line.append tail))
      simpa [Lines.leaves, Line.leaves, Line.before] using whole

end Graft.Source
