import Graft.Proofs.Lossless.Scan

set_option autoImplicit false

/-!
Lines lose nothing but blanks: what is written of the lines of a source is the source, with the margin
of its block in place of the blanks in front of a line.
-/
namespace Graft.Source

/-- The line end that a text lacks. -/
def lacking (lineEnd : String) (text : Chars) : Chars :=
  if text.getLast?.any isBreak then [] else lineEnd.toList

theorem lacking_append (lineEnd : String) (front : Chars) {back : Chars} (some : back ≠ []) :
    lacking lineEnd (front ++ back) = lacking lineEnd back := by
  cases last : back.getLast? with
  | none => exact absurd (List.getLast?_eq_none_iff.1 last) some
  | some c => simp [lacking, List.getLast?_append, last]

theorem lacking_of_endsInline (lineEnd : String) {text : Chars} (ends : EndsInline text) :
    lacking lineEnd text = lineEnd.toList := by
  rcases ends with ⟨front, c, rfl, inside⟩
  simp [lacking, show isBreak c = false from inside]

theorem lacking_break (lineEnd : String) {text written rest : Chars}
    (broken : breakAt? text = some (written, rest)) (front : Chars) :
    lacking lineEnd (front ++ written) = [] := by
  rcases (breakAt?_splits _ _ _ broken).2 with ⟨before, c, rfl, ends⟩
  simp [lacking, ← List.append_assoc, ends]

/-- What ends the last line of a source, if the source does not. -/
def completion (lineEnd : String) (text : Chars) : Chars :=
  if text.isEmpty then [] else lacking lineEnd text

theorem completion_of_ne_nil (lineEnd : String) {text : Chars} (present : text ≠ []) :
    completion lineEnd text = lacking lineEnd text := by
  simp [completion, present]

theorem completion_of_ended (lineEnd : String) {text : Chars}
    (ended : text.getLast?.any isBreak = true) : completion lineEnd text = [] := by
  rw [completion, lacking, if_pos ended]
  split <;> rfl

theorem completion_append (lineEnd : String) (front : Chars) {back : Chars} (present : back ≠ []) :
    completion lineEnd (front ++ back) = completion lineEnd back := by
  rw [completion_of_ne_nil lineEnd present, completion_of_ne_nil lineEnd (by simp [present]),
    lacking_append lineEnd front present]

theorem blanks_ends {text : Chars} (all : (blanks text).2 = []) : text = [] ∨ EndsInline text := by
  fun_induction blanks text with
  | case1 => cases all
  | case2 rest more gap after split ih =>
    rcases ih (by simpa [split] using all) with rfl | ends
    · simp at more
    · exact .inr (ends.append ['\\', '\r', '\n'])
  | case3 c rest _ more gap after split ih =>
    rcases ih (by simpa [split] using all) with rfl | ends
    · simp at more
    · exact .inr (ends.append ['\\', c])
  | case4 => cases all
  | case5 c rest _ _ space gap after split ih =>
    rcases ih (by simpa [split] using all) with rfl | ends
    · exact .inr ⟨[], c, rfl, inline_of rfl rfl space⟩
    · exact .inr (ends.append [c])
  | case6 => cases all
  | case7 => exact .inl rfl

theorem comment_ends {text : Chars} (all : (comment text).2 = []) : text = [] ∨ EndsInline text := by
  fun_cases comment text with
  | case1 rest =>
    have same := comment_append ('#' :: rest)
    rw [all, List.append_nil] at same
    refine .inr (same ▸ endsInline_of_forall (by simp [comment]) ?_)
    exact allInline_cons rfl fun c mem =>
      inline_of rfl rfl (List.all_eq_true.1 List.all_takeWhile c mem)
  | case2 text => exact .inl (by simpa [comment] using all)

theorem gapOnLine_ends {text : Chars} (all : (gapOnLine text).2 = []) :
    text = [] ∨ EndsInline text := by
  have same := blanks_append text
  rcases comment_ends (show (comment (blanks text).2).2 = [] from all) with none | ends
  · exact blanks_ends none
  · exact .inr (same ▸ ends.append _)

variable {setup : Setup}

/-- What one step of a scan can do: end with the source, end with the line, or take a token. -/
inductive Scanned (setup : Setup) (fuel : Nat) (frames : List Frame) (text : Chars) :
    List Token → List Leaf → Chars → Prop where
  | stop (outside : frames = []) (all : (gapOnLine text).2 = []) :
    Scanned setup fuel frames text [] ((gapOnLine text).1 ++ [.lineEnd none]) []
  | line {written rest : Chars} (outside : frames = [])
    (broken : breakAt? (gapOnLine text).2 = some (written, rest)) :
    Scanned setup fuel frames text [] ((gapOnLine text).1 ++ [breakLeaf setup.lineEnd written]) rest
  | token {gap : List Leaf} {inner rest : Chars} {taken : Taken} {others : List Token}
    {trail : List Leaf} (start : frames = [] → gap = (gapOnLine text).1)
    (plain : frames = [] → plainToken? [] inner = some taken)
    (before : shown ⟨setup.lineEnd, true⟩ gap ++ inner = text)
    (all : AllShown ⟨setup.lineEnd, true⟩ gap) (present : inner ≠ []) (fits : taken.Fits inner) (tight : (taken.token gap).isTight = true)
    (more : tokens? setup fuel taken.frames taken.rest = some (others, trail, rest)) :
    Scanned setup fuel frames text (taken.token gap :: others) trail rest

theorem scanned_of_tokens? {fuel : Nat} {frames : List Frame} {text rest : Chars}
    {tokens : List Token} {trail : List Leaf} (sound : ∀ frame ∈ frames, frame.isSound = true)
    (read : tokens? setup (fuel + 1) frames text = some (tokens, trail, rest)) :
    Scanned setup fuel frames text tokens trail rest := by
  -- Whatever frame the scan is in, it goes on alike after a token; only the gap differs.
  have next {gap : List Leaf} {inner : Chars} {found : Option Taken}
      (start : frames = [] → gap = (gapOnLine text).1)
      (plain : frames = [] → plainToken? [] inner = found)
      (before : shown ⟨setup.lineEnd, true⟩ gap ++ inner = text)
      (all : AllShown ⟨setup.lineEnd, true⟩ gap) (each : ∀ taken, found = some taken →
        taken.Fits inner ∧ inner ≠ [] ∧ (taken.token gap).isTight = true)
      (on : (found.bind fun taken => (tokens? setup fuel taken.frames taken.rest).bind
        fun read => some (taken.token gap :: read.1, read.2)) =
          some (tokens, trail, rest)) : Scanned setup fuel frames text tokens trail rest := by
    simp only [Option.bind_eq_some_iff] at on
    rcases on with ⟨taken, here, ⟨others, more⟩, onwards, same⟩
    cases same
    rcases each taken here with ⟨fits, present, tight⟩
    exact .token start (fun none => (plain none).trans here) before all present fits tight onwards
  have outside {gap : List Leaf} {inner : Chars} (taken : Taken)
      (found : plainToken? frames inner = some taken) :
      taken.Fits inner ∧ inner ≠ [] ∧ (taken.token gap).isTight = true := by
    have fits := plainToken?_fits sound found
    refine ⟨fits.toFits, ?_, by simp [Token.isTight, Taken.token, fits.outside]⟩
    rintro rfl
    cases found
  unfold tokens? at read
  split at read
  next quote outer =>
    rw [List.forall_mem_cons] at sound
    refine next (by simp) (by simp) rfl (allShown_nil _) (fun taken found => ?_) read
    refine ⟨literalToken?_fits sound.2 sound.1 found, ?_, rfl⟩
    rintro rfl
    cases found
  next outer =>
    rw [List.forall_mem_cons] at sound
    refine next (by simp) (by simp) rfl (allShown_nil _) (fun taken found => ?_) read
    refine ⟨formatToken?_fits sound.2 found, ?_, rfl⟩
    rintro rfl
    simp [formatToken?, formatText] at found
  next =>
    exact next (by simp) (by simp) (gapInside_append setup fuel text) (gapInside_allShown setup fuel text)
      (fun taken found => outside taken found) read
  next =>
    have line := gapOnLine_append ⟨setup.lineEnd, true⟩ text
    split at read
    next gap inner gapped =>
      have front : gap = (gapOnLine text).1 := by rw [gapped]
      have back : inner = (gapOnLine text).2 := by rw [gapped]
      rw [← front, ← back] at line
      split at read
      next =>
        cases read
        rw [front]
        exact .stop rfl back.symm
      next broken =>
        cases read
        rw [front]
        exact .line rfl (back ▸ broken)
      next =>
        exact next (fun _ => front) (fun _ => rfl) line (front ▸ gapOnLine_allShown _ text)
          (fun taken found => outside taken found) read

theorem frames_of_tokens?_nil {fuel : Nat} {frames : List Frame} {rest : Chars}
    {tokens : List Token} {trail : List Leaf} (sound : ∀ frame ∈ frames, frame.isSound = true)
    (read : tokens? setup fuel frames [] = some (tokens, trail, rest)) : frames = [] := by
  cases fuel with
  | zero => cases read
  | succ fuel =>
    cases scanned_of_tokens? sound read with
    | stop outside => exact outside
    | line outside => exact outside
    | token _ _ before _ present => exact absurd (List.append_eq_nil_iff.1 before).2 present

theorem tokens?_shown {fuel : Nat} {frames : List Frame} {text rest : Chars} {tokens : List Token}
    {trail : List Leaf} (sound : ∀ frame ∈ frames, frame.isSound = true)
    (read : tokens? setup fuel frames text = some (tokens, trail, rest)) :
    shown ⟨setup.lineEnd, true⟩ (tokens.flatMap Token.leaves ++ trail) ++ rest =
      text ++ if rest.isEmpty then lacking setup.lineEnd text else [] := by
  induction fuel generalizing frames text tokens with
  | zero => cases read
  | succ fuel ih =>
    have same := gapOnLine_append ⟨setup.lineEnd, true⟩ text
    cases scanned_of_tokens? sound read with
    | stop outside all =>
      -- The trail ends the line in place of the source.
      have lacks : lacking setup.lineEnd text = setup.lineEnd.toList := by
        rcases gapOnLine_ends all with rfl | ends
        · rfl
        · exact lacking_of_endsInline _ ends
      rw [all, List.append_nil] at same
      simp [same, lacks, Leaf.render]
    | @line written rest outside broken =>
      have split := (breakAt?_splits _ _ _ broken).1
      have exact : shown ⟨setup.lineEnd, true⟩ (gapOnLine text).1 ++ written ++ rest = text := by
        rw [List.append_assoc, split, same]
      cases rest with
      | nil =>
        have lacks := lacking_break setup.lineEnd broken (shown ⟨setup.lineEnd, true⟩ (gapOnLine text).1)
        rw [List.append_nil] at exact
        rw [exact] at lacks
        simpa [lacks] using exact
      | cons c rest => simpa using exact
    | @token gap inner rest taken others trail _ _ before _ _ fits _ more =>
      have after := ih fits.sound more
      have whole : shown ⟨setup.lineEnd, true⟩ gap ++ taken.text ++ taken.rest = text := by
        rw [List.append_assoc, fits.split, before]
      -- The text after the token ends as the whole text does, unless nothing comes after it.
      have lacks : lacking setup.lineEnd text = lacking setup.lineEnd taken.rest := by
        rw [← whole]
        by_cases spent : taken.rest = []
        · rw [spent] at more
          have closed := fits.ends (frames_of_tokens?_nil fits.sound more)
          rw [spent, List.append_nil, lacking_of_endsInline _ (closed.append _)]
          rfl
        · exact lacking_append _ _ spent
      simp only [List.flatMap_cons, Token.leaves, Taken.token, shown_append, shown_cons, shown_nil,
        render_text, String.toList_ofList, List.append_nil, List.append_assoc] at after whole ⊢
      rw [after, lacks, ← whole]
      simp

theorem tokens?_tight {fuel : Nat} {frames : List Frame} {text rest : Chars}
    {tokens : List Token} {trail : List Leaf} (sound : ∀ frame ∈ frames, frame.isSound = true)
    (read : tokens? setup fuel frames text = some (tokens, trail, rest)) :
    ∀ token ∈ tokens, token.isTight = true := by
  induction fuel generalizing frames text tokens with
  | zero => cases read
  | succ fuel ih =>
    cases scanned_of_tokens? sound read with
    | stop => simp
    | line => simp
    | token _ _ _ _ _ fits tight more => simpa using ⟨tight, ih fits.sound more⟩

theorem tokens?_allShown {fuel : Nat} {frames : List Frame} {text rest : Chars} {tokens : List Token}
    {trail : List Leaf} (standard : setup.lineEnd ≠ "")
    (sound : ∀ frame ∈ frames, frame.isSound = true)
    (read : tokens? setup fuel frames text = some (tokens, trail, rest)) :
    AllShown ⟨setup.lineEnd, true⟩ (tokens.flatMap Token.leaves ++ trail) ∧ trail ≠ [] := by
  induction fuel generalizing frames text tokens with
  | zero => cases read
  | succ fuel ih =>
    have line := gapOnLine_allShown ⟨setup.lineEnd, true⟩ text
    cases scanned_of_tokens? sound read with
    | stop => exact ⟨by simpa [line] using standard, by simp⟩
    | line _ broken => simpa using ⟨line, breakAt?_ne_nil broken⟩
    | token _ _ _ all _ fits _ more =>
      have after := ih fits.sound more
      rw [allShown_append] at after
      refine ⟨?_, after.2⟩
      simpa [Token.leaves, Taken.token, all, fits.present] using after.1

theorem tokens?_ended {fuel : Nat} {frames : List Frame} {text : Chars} {tokens : List Token}
    {trail : List Leaf} (sound : ∀ frame ∈ frames, frame.isSound = true)
    (read : tokens? setup fuel frames text = some (tokens, trail, []))
    (unended : text.getLast?.any isBreak = false) : trail.getLast? = some (.lineEnd none) := by
  induction fuel generalizing frames text tokens with
  | zero => cases read
  | succ fuel ih =>
    cases scanned_of_tokens? sound read with
    | stop => simp
    | line _ broken =>
      -- The source would end in this line end.
      have same := gapOnLine_append ⟨setup.lineEnd, true⟩ text
      rcases breakAt?_splits _ _ _ broken with ⟨split, before, c, rfl, ends⟩
      rw [← same, ← split] at unended
      simp [← List.append_assoc, ends] at unended
    | @token gap inner _ taken _ _ _ _ before _ _ fits _ more =>
      refine ih fits.sound more ?_
      cases spent : taken.rest with
      | nil => rfl
      | cons c rest =>
        rw [← before, ← fits.split, spent] at unended
        simpa [List.getLast?_append, List.getLast?_cons] using unended

/-- Every line with tokens begins with the margin of its block, and with no other blanks. -/
def isFlush (lineEnd : String) : Nat → Indent.Stack → Chars → Bool
  | 0, _, _ => true
  | fuel + 1, stack, text =>
    let (blank, rest) := blanks text
    let (_, after) := comment rest
    match breakAt? after, after with
    | some (_, after), _ => isFlush lineEnd fuel stack after
    | none, [] => true
    | none, _ =>
      match Indent.enter? (Indent.ofBlanks blank) stack with
      | none => true
      | some stack =>
        let margin := (Indent.top stack).text
        blank == margin &&
          match tokens? ⟨lineEnd, margin⟩ (rest.length + 1) [] rest with
          | none => true
          | some (_, _, rest) => isFlush lineEnd fuel stack rest

theorem linesFrom?_nil {lineEnd : String} {fuel : Nat} {stack : Indent.Stack} {above : List Blank}
    {source : Lines} (read : linesFrom? lineEnd fuel stack above [] = some source) :
    source = ⟨[], above⟩ := by
  cases fuel <;> cases read
  rfl

/-- What one step of a scan of lines can do. -/
inductive Lined (lineEnd : String) (fuel : Nat) (stack : Indent.Stack) (above : List Blank) :
    Chars → Lines → Prop where
  | done : Lined lineEnd fuel stack above [] ⟨[], above⟩
  | last {text : Chars} (gapped : gapOnLine text = (textLeaf text, [])) (ends : EndsInline text)
    (flush : isFlush lineEnd (fuel + 1) stack text = true) :
    Lined lineEnd fuel stack above text ⟨[], above ++ [⟨text, .lineEnd none⟩]⟩
  | blank {front written after : Chars} {source : Lines}
    (gapped : gapOnLine (front ++ written ++ after) = (textLeaf front, written ++ after))
    (broken : breakAt? (written ++ after) = some (written, after))
    (flush : isFlush lineEnd (fuel + 1) stack (front ++ written ++ after) =
      isFlush lineEnd fuel stack after)
    (more : linesFrom? lineEnd fuel stack (above ++ [⟨front, breakLeaf lineEnd written⟩]) after =
      some source) : Lined lineEnd fuel stack above (front ++ written ++ after) source
  | line {front rest after : Chars} {inner : Indent.Stack} {tokens : List Token} {trail : List Leaf}
    {source : Lines} (entered : Indent.enter? (Indent.ofBlanks front) stack = some inner)
    (split : blanks (front ++ rest) = (front, rest)) (bare : gapOnLine rest = ([], rest)) (present : rest ≠ []) (inside : breakAt? rest = none)
    (flush : isFlush lineEnd (fuel + 1) stack (front ++ rest) =
      (front == (Indent.top inner).text && isFlush lineEnd fuel inner after))
    (read : tokens? ⟨lineEnd, (Indent.top inner).text⟩ (rest.length + 1) [] rest =
      some (tokens, trail, after))
    (more : linesFrom? lineEnd fuel inner [] after = some source) :
    Lined lineEnd fuel stack above (front ++ rest)
      ⟨⟨above, inner.length, (Indent.top inner).text, tokens, trail⟩ :: source.lines, source.below⟩

theorem blanks_again (text : Chars) : blanks (blanks text).2 = ([], (blanks text).2) := by
  fun_induction blanks text with
  | case1 rest spent => simp [blanks]
  | case2 rest more gap after split ih => rw [split] at ih; exact ih
  | case3 c rest _ more gap after split ih => rw [split] at ih; exact ih
  | case4 c rest other visible => rw [blanks, if_neg visible]; exact other
  | case5 c rest _ _ space gap after split ih => rw [split] at ih; exact ih
  | case6 c rest _ _ solid => rw [blanks, if_neg solid] <;> assumption
  | case7 => rfl

theorem breakAt?_ne_none {c : Char} (ends : isBreak c = true) (rest : Chars) :
    breakAt? (c :: rest) ≠ none := by
  unfold breakAt?
  split
  next => simp
  next d other _ same =>
    cases same
    simp [ends]
  next same => cases same

theorem comment_of_breakAt? {text : Chars} (some : (comment text).2 ≠ [])
    (inside : breakAt? (comment text).2 = none) : comment text = ([], text) := by
  fun_cases comment text with
  | case1 rest =>
    -- What follows the comment is the end of the line.
    rw [comment] at some inside
    have ends := List.head_dropWhile_not (fun c => !isBreak c) some
    cases after : rest.dropWhile (fun c => !isBreak c) with
    | nil => exact absurd after some
    | cons c more =>
      simp only [after, List.head_cons, Bool.not_eq_false'] at ends
      rw [after] at inside
      exact absurd inside (breakAt?_ne_none ends more)
  | case2 => rfl

theorem lined_of_linesFrom? {lineEnd : String} {fuel : Nat} {stack : Indent.Stack}
    {above : List Blank} {text : Chars} {source : Lines}
    (read : linesFrom? lineEnd (fuel + 1) stack above text = some source) :
    Lined lineEnd fuel stack above text source := by
  cases text with
  | nil =>
    rw [linesFrom?] at read
    · cases read
      exact .done
    · simp
  | cons c cs =>
    have whole := blanks_append (c :: cs)
    have remark := comment_append (blanks (c :: cs)).2
    rw [linesFrom?] at read
    · dsimp only at read
      cases broken : breakAt? (comment (blanks (c :: cs)).2).2 with
      | some found =>
        rcases found with ⟨written, after⟩
        simp only [broken] at read
        have split := (breakAt?_splits _ _ _ broken).1
        have same : (blanks (c :: cs)).1 ++ (comment (blanks (c :: cs)).2).1 ++ written ++ after =
            c :: cs := by
          rw [List.append_assoc, split, List.append_assoc, remark, whole]
        have gapped : gapOnLine (c :: cs) = (textLeaf ((blanks (c :: cs)).1 ++
            (comment (blanks (c :: cs)).2).1), written ++ after) := by
          rw [split]
          rfl
        rw [← split] at broken
        -- A blank line takes a break and nothing of the rest, flushness included.
        have flush : isFlush lineEnd (fuel + 1) stack (c :: cs) = isFlush lineEnd fuel stack after := by
          rw [isFlush]
          simp only [← split, broken]
        generalize (blanks (c :: cs)).1 ++ (comment (blanks (c :: cs)).2).1 = front at read same gapped
        rw [← same] at flush gapped ⊢
        exact .blank gapped broken flush read
      | none =>
        simp only [broken] at read
        cases spent : (comment (blanks (c :: cs)).2).2 with
        | nil =>
          simp only [spent] at read
          cases read
          rw [spent, List.append_nil] at remark
          rw [remark, whole]
          refine .last ?_ ?_ ?_
          · simp only [gapOnLine, spent, remark, whole]
          · exact (gapOnLine_ends spent).resolve_left (by simp)
          · rw [isFlush]
            simp [spent, breakAt?]
        | cons d rest =>
          simp only [spent, Option.bind_eq_bind, Option.bind_eq_some_iff] at read
          rcases read with ⟨inner, entered, ⟨tokens, trail, after⟩, tokenized, others, more, same⟩
          cases same
          -- Something other than a break stands behind the gap, so the gap has no comment.
          have bare := comment_of_breakAt? (by simp [spent]) broken
          rw [← whole]
          refine .line entered ?_ ?_ ?_ ?_ ?_ tokenized more
          · rw [whole]
          · simp [gapOnLine, blanks_again, bare, textLeaf]
          · rw [bare] at spent
            simp [show (blanks (c :: cs)).2 = d :: rest from spent]
          · rw [bare] at broken
            exact broken
          · rw [whole, isFlush]
            rw [spent] at broken
            simp only [spent, broken, entered, tokenized]
    · simp

variable {lineEnd : String} {fuel : Nat} {stack : Indent.Stack} {above : List Blank} {text : Chars}
  {source : Lines}

theorem linesFrom?_tight (read : linesFrom? lineEnd fuel stack above text = some source) :
    ∀ line ∈ source.lines, line.IsTight := by
  induction fuel generalizing stack above text source with
  | zero => cases read
  | succ fuel ih =>
    cases lined_of_linesFrom? read with
    | done => simp
    | last => simp
    | blank _ _ _ more => exact ih more
    | line _ _ bare _ _ _ tokenized more =>
      refine List.forall_mem_cons.2 ⟨⟨tokens?_tight (by simp) tokenized, ?_⟩, ih more⟩
      cases scanned_of_tokens? (by simp) tokenized with
      | stop => simp
      | line => simp
      | token start => simp [Taken.token, start rfl, bare]

theorem linesFrom?_leaves_ne_nil (standard : lineEnd ≠ "")
    (read : linesFrom? lineEnd fuel stack above text = some source) :
    ∀ line ∈ source.lines, line.leaves ≠ [] := by
  induction fuel generalizing stack above text source with
  | zero => cases read
  | succ fuel ih =>
    cases lined_of_linesFrom? read with
    | done => simp
    | last => simp
    | blank _ _ _ more => exact ih more
    | line _ _ _ _ _ _ tokenized more =>
      have trail := (tokens?_allShown standard (by simp) tokenized).2
      exact List.forall_mem_cons.2 ⟨by simp [Line.leaves, trail], ih more⟩

theorem linesFrom?_allShown (standard : lineEnd ≠ "")
    (read : linesFrom? lineEnd fuel stack above text = some source)
    (before : AllShown ⟨lineEnd, true⟩ (above.flatMap Blank.leaves)) :
    AllShown ⟨lineEnd, true⟩ source.leaves := by
  induction fuel generalizing stack above text source with
  | zero => cases read
  | succ fuel ih =>
    cases lined_of_linesFrom? read with
    | done => simpa [Lines.leaves] using before
    | last => simpa [Lines.leaves, Blank.leaves, allShown_textLeaf, before] using standard
    | blank _ broken _ more =>
      refine ih more ?_
      simpa [Blank.leaves, allShown_textLeaf, breakAt?_ne_nil broken] using before
    | line _ _ _ _ _ _ tokenized more =>
      have tail := ih more (allShown_nil _)
      have head := (tokens?_allShown standard (by simp) tokenized).1
      rw [Lines.leaves, allShown_append] at tail ⊢
      rw [allShown_append] at head
      simpa [Line.leaves, Line.before, allShown_marginLeaf, before, head] using tail

theorem linesFrom?_ended (read : linesFrom? lineEnd fuel stack above text = some source)
    (present : text ≠ []) (unended : text.getLast?.any isBreak = false) :
    source.leaves.getLast? = some (.lineEnd none) := by
  induction fuel generalizing stack above text source with
  | zero => cases read
  | succ fuel ih =>
    -- A text that does not end in a line break has an unfinished last line.
    cases lined_of_linesFrom? read with
    | done => exact absurd rfl present
    | last => simp [Lines.leaves, Blank.leaves]
    | @blank front written after source _ broken _ more =>
      cases after with
      | nil =>
        rcases (breakAt?_splits _ _ _ broken).2 with ⟨before, c, rfl, ends⟩
        simp [← List.append_assoc, ends] at unended
      | cons c after =>
        refine ih more (by simp) ?_
        simpa [List.getLast?_append, List.getLast?_cons] using unended
    | @line front rest after inner tokens trail source _ _ _ some _ _ tokenized more =>
      have inside : rest.getLast?.any isBreak = false := by
        cases last : rest.getLast? with
        | none => rfl
        | some c => simpa [List.getLast?_append, last] using unended
      have leaves : (Lines.mk (⟨above, inner.length, (Indent.top inner).text, tokens, trail⟩ ::
          source.lines) source.below).leaves = above.flatMap Blank.leaves ++
            marginLeaf (Indent.top inner).text ++ tokens.flatMap Token.leaves ++ trail ++
              source.leaves := by
        simp [Lines.leaves, Line.leaves, Line.before]
      rw [leaves, List.getLast?_append]
      cases after with
      | nil =>
        cases linesFrom?_nil more
        simp [Lines.leaves, List.getLast?_append, tokens?_ended (by simp) tokenized inside]
      | cons c after =>
        have same := tokens?_shown (by simp) tokenized
        rw [if_neg (by simp), List.append_nil] at same
        rw [← same] at inside
        rw [ih more (by simp) (by simpa [List.getLast?_append, List.getLast?_cons] using inside)]
        rfl

/-- If every line begins with its margin, then nothing is lost. -/
theorem linesFrom?_shown (read : linesFrom? lineEnd fuel stack above text = some source)
    (flush : isFlush lineEnd fuel stack text = true) :
    shown ⟨lineEnd, true⟩ source.leaves =
      shown ⟨lineEnd, true⟩ (above.flatMap Blank.leaves) ++ text ++ completion lineEnd text := by
  induction fuel generalizing stack above text source with
  | zero => cases read
  | succ fuel ih =>
    cases lined_of_linesFrom? read with
    | done => simp [Lines.leaves, completion]
    | last _ ends =>
      have present : text ≠ [] := by
        rcases ends with ⟨front, c, rfl, -⟩
        simp
      rw [completion_of_ne_nil lineEnd present, lacking_of_endsInline lineEnd ends]
      simp [Lines.leaves, Blank.leaves, Leaf.render]
    | @blank front written after source _ broken same more =>
      have lacks : completion lineEnd (front ++ written ++ after) = completion lineEnd after := by
        by_cases spent : after = []
        · have present : written ≠ [] := by
            rcases (breakAt?_splits _ _ _ broken).2 with ⟨before, c, rfl, -⟩
            simp
          rw [spent, List.append_nil] at broken ⊢
          rw [completion_of_ne_nil lineEnd (by simp [present]), lacking_break lineEnd broken]
          rfl
        · exact completion_append lineEnd (front ++ written) spent
      rw [same] at flush
      rw [ih more flush, lacks]
      simp [Blank.leaves]
    | @line front rest after inner tokens trail source _ _ _ present _ same tokenized more =>
      -- Only here are blanks of the source replaced, by the margin that they are equal to.
      rw [same, Bool.and_eq_true, beq_iff_eq] at flush
      have tail := ih more flush.2
      have head := tokens?_shown (by simp) tokenized
      rw [completion_append lineEnd front present, completion_of_ne_nil lineEnd present]
      have both : shown ⟨lineEnd, true⟩ (tokens.flatMap Token.leaves ++ trail) ++
          shown ⟨lineEnd, true⟩ source.leaves = rest ++ lacking lineEnd rest := by
        by_cases spent : after = []
        · rw [spent] at head tail
          simpa [tail, completion] using head
        · rw [if_neg (by simpa using spent), List.append_nil] at head
          rw [tail, ← head, lacking_append lineEnd _ spent, completion_of_ne_nil lineEnd spent]
          simp
      simp only [Lines.leaves, Line.leaves, Line.before, List.flatMap_cons, shown_append,
        shown_marginLeaf, List.append_assoc] at both ⊢
      rw [both, flush.1]

end Graft.Source
