import Graft.Proofs.Lossless.Flush

set_option autoImplicit false

/-!
Which sources are printed as they were read.
-/
namespace Graft

open Source

namespace Source

theorem dropLast_sublist_dropLast {A : Type} {part whole : List A} (sub : part.Sublist whole) :
    part.dropLast.Sublist whole.dropLast := by
  rw [← List.reverse_sublist, ← List.tail_reverse, ← List.tail_reverse]
  exact (List.reverse_sublist.2 sub).tail

theorem firstBreak_cases (text : Chars) :
    firstBreak text = "\n" ∨ firstBreak text = "\r\n" ∨ firstBreak text = "\r" := by
  fun_induction firstBreak text with
  | case1 => exact .inl rfl
  | case2 c rest written after broken =>
    unfold breakAt? at broken
    split at broken
    next => cases broken; exact .inr (.inl rfl)
    next c _ _ =>
      split at broken
      next is =>
        cases broken
        rcases isBreak_cases is with rfl | rfl
        · exact .inl rfl
        · exact .inr (.inr rfl)
      next => cases broken
    next => cases broken
  | case3 c rest inside ih => exact ih

theorem firstBreak_ne_empty (text : Chars) : firstBreak text ≠ "" := by
  rcases firstBreak_cases text with same | same | same <;> rw [same] <;> decide

deriving instance DecidableEq for Blank

theorem Blank.leaves_ne_nil (blank : Blank) : blank.leaves ≠ [] := by
  simp [Blank.leaves]

/-- The blanks at the end of a source that belong to none of its blocks. -/
def Lines.footer (source : Lines) : List Blank :=
  match source.lines with
  | [] => []
  | first :: others =>
    let lines := { first with above := [] } :: others
    ((Grammar.statements (lines.length + 2) 0).run { source with lines }).elim [] (·.2.below)

end Source

namespace Grammar

theorem statements_ne_nil {fuel : Nat} {line : Line} {others : List Line} {below : List Blank}
    {body : List Node} {rest : Lines}
    (run : (statements fuel 0).run ⟨line :: others, below⟩ = some (body, rest)) : body ≠ [] := by
  cases fuel with
  | zero => cases run
  | succ fuel =>
    have found : (if line.depth = 0 then (do
        let first ← statement (statements fuel) 0
        return first :: (← statements fuel 0)) else failure : Script (List Node)).run
          ⟨line :: others, below⟩ = some (body, rest) := run
    split at found
    next =>
      simp only [StateT.run_bind, Option.bind_eq_bind, Option.bind_eq_some_iff] at found
      rcases found with ⟨first, -, others, -, same⟩
      cases same
      simp
    next => cases found

end Grammar

namespace Module

theorem isBreak_of_hasFinalBreak {text : Chars} (final : hasFinalBreak text = true) :
    text.getLast?.any isBreak = true := by
  rw [List.getLast?_eq_head?_reverse]
  unfold hasFinalBreak at final
  split at final
  next => cases final
  next => cases final
  next same => rw [same]; rfl
  next => cases final

theorem keptFooter_suffix (blanks : List Blank) : keptFooter blanks <:+ blanks := by
  unfold keptFooter
  dsimp only
  split
  next => exact List.suffix_rfl
  next =>
    split
    next => exact List.nil_suffix
    next => exact List.drop_suffix _ _

theorem keptFooter_leaves (blanks : List Blank) :
    ((keptFooter blanks).flatMap Blank.leaves).Sublist (blanks.flatMap Blank.leaves) := by
  rcases keptFooter_suffix blanks with ⟨cut, split⟩
  have leaves := congrArg (List.flatMap Blank.leaves) split
  rw [List.flatMap_append] at leaves
  exact leaves ▸ List.sublist_append_right _ _

theorem keptFooter_of_leaves {blanks : List Blank}
    (same : (keptFooter blanks).flatMap Blank.leaves = blanks.flatMap Blank.leaves) :
    keptFooter blanks = blanks := by
  rcases keptFooter_suffix blanks with ⟨cut, split⟩
  have leaves := congrArg (List.flatMap Blank.leaves) split
  rw [List.flatMap_append, ← same, List.append_left_eq_self, List.flatMap_eq_nil_iff] at leaves
  cases cut with
  | nil => exact split
  | cons blank cut => exact absurd (leaves blank (by simp)) blank.leaves_ne_nil

theorem ofLines?_leaves {lineEnd : String} {finalBreak : Bool} {source : Lines} {module : Module}
    (tight : ∀ line ∈ source.lines, line.IsTight)
    (made : ofLines? lineEnd finalBreak source = some module) :
    module.lineEnd = lineEnd ∧ module.finalBreak = finalBreak ∧ ∃ front,
      source.lines.flatMap Line.leaves <+: front ∧
      source.leaves = front ++ source.footer.flatMap Blank.leaves ∧
      module.leaves = front ++ (keptFooter source.footer).flatMap Blank.leaves := by
  rcases source with ⟨lines, below⟩
  cases lines with
  | nil =>
    cases made
    exact ⟨rfl, rfl, below.flatMap Blank.leaves, by simp, by simp [Lines.leaves, Lines.footer],
      by simp [leaves, Lines.footer, keptFooter]⟩
  | cons first others =>
    simp only [ofLines?, Option.bind_eq_bind, Option.bind_eq_some_iff] at made
    rcases made with ⟨⟨body, rest⟩, run, made⟩
    have present : body.isEmpty = false := by simpa using Grammar.statements_ne_nil run
    have footer : (Lines.mk (first :: others) below).footer = rest.below :=
      congrArg (fun found : Option (List Node × Lines) => found.elim [] (·.2.below)) run
    rw [List.forall_mem_cons] at tight
    -- What stands above the first line is the header, and no statement reads it.
    have each : ∀ line ∈ { first with above := [] } :: others, line.IsTight :=
      List.forall_mem_cons.2 ⟨⟨tight.1.tokens, tight.1.first⟩, tight.2⟩
    have whole := Grammar.statements_writes _ 0 _ [] _ _ _ ⟨each, rfl, List.suffix_rfl⟩ run
    simp only [present, Bool.false_eq_true, if_false] at made
    split at made
    next => cases made
    next spent =>
      cases made
      rcases whole.below with ⟨taken, rfl⟩
      have written := whole.split
      simp only [Lines.leaves, show rest.lines = [] by simpa using spent, List.flatMap_append,
        List.flatMap_nil, List.nil_append, ← List.append_assoc, List.append_cancel_right_eq] at written
      rw [footer]
      refine ⟨rfl, rfl, first.above.flatMap Blank.leaves ++ Node.leaves.leavesAll body, ?_, ?_, rfl⟩
      · rw [← written]
        exact ⟨taken.flatMap Blank.leaves, by simp [Line.leaves, Line.before]⟩
      · rw [← written]
        simp [Lines.leaves, Line.leaves, Line.before]

theorem toList_source (module : Module) : module.source.toList =
    if module.finalBreak then
      if module.leaves.isEmpty then module.lineEnd.toList else shown module.layout module.leaves
    else shown module.layout module.leaves.dropLast := by
  unfold source
  dsimp only
  split
  next => split <;> simp [toList_renderLeaves]
  next => rw [toList_renderLeaves]

section

variable {text : Chars} {source : Lines} {module : Module}
  (read : lines? (firstBreak text) text = some source)

include read

theorem lines?_allShown : AllShown ⟨firstBreak text, true⟩ source.leaves := by
  exact linesFrom?_allShown (firstBreak_ne_empty text) read (allShown_nil _)

theorem lines?_unmarked : Unmarked (shown ⟨firstBreak text, true⟩ source.leaves) := by
  refine linesFrom?_unmarked ?_ read (by simp [Indent.AllSpace]) .nil
  rcases firstBreak_cases text with same | same | same <;> rw [same] <;> decide

theorem lines?_shown (flush : isFlush (firstBreak text) (text.length + 1) [] text = true) :
    shown ⟨firstBreak text, true⟩ source.leaves = text ++ completion (firstBreak text) text := by
  simpa using linesFrom?_shown read flush

theorem lines?_dropLast (flush : isFlush (firstBreak text) (text.length + 1) [] text = true)
    (unended : text.getLast?.any isBreak = false) :
    shown ⟨firstBreak text, true⟩ source.leaves.dropLast = text := by
  have whole := lines?_shown read flush
  cases present : text with
  | nil =>
    subst present
    cases linesFrom?_nil read
    rfl
  | cons c rest =>
    have some : text ≠ [] := by simp [present]
    rcases List.getLast?_eq_some_iff.1 (linesFrom?_ended read some unended) with ⟨front, last⟩
    rw [completion_of_ne_nil _ some, lacking, unended, last] at whole
    rw [last, List.dropLast_concat, ← present]
    simpa using whole

/-- The leaves of a module and of its source differ in a part of the footer at most. -/
theorem ofLines?_front (made : ofLines? (firstBreak text) (hasFinalBreak text) source = some module) :
    module.layout = ⟨firstBreak text, true⟩ ∧ module.finalBreak = hasFinalBreak text ∧ ∃ front,
      (front = [] → source.footer = []) ∧ source.lines.flatMap Line.leaves <+: front ∧
      source.leaves = front ++ source.footer.flatMap Blank.leaves ∧
      module.leaves = front ++ (keptFooter source.footer).flatMap Blank.leaves := by
  rcases ofLines?_leaves (linesFrom?_tight read) made with ⟨same, final, front, begins, whole, kept⟩
  refine ⟨by rw [layout, same], final, front, ?_, begins, whole, kept⟩
  rintro rfl
  have bare : source.lines = [] := by
    rw [List.prefix_nil, List.flatMap_eq_nil_iff] at begins
    refine List.eq_nil_iff_forall_not_mem.2 fun line mem => ?_
    exact linesFrom?_leaves_ne_nil (firstBreak_ne_empty text) read line mem (begins line mem)
  simp [Lines.footer, bare]

theorem source_unmarked
    (made : ofLines? (firstBreak text) (hasFinalBreak text) source = some module) :
    Unmarked module.source.toList := by
  rcases ofLines?_front read made with ⟨layout, final, front, bare, -, whole, kept⟩
  have mine : Unmarked (shown module.layout module.leaves) := by
    have first := lines?_unmarked read
    have all := lines?_allShown read
    rw [whole, shown_append] at first
    rw [whole, allShown_append] at all
    rw [layout, kept]
    -- A module without leaves in front of its footer has no footer either.
    cases front with
    | nil => simpa [bare rfl, keptFooter] using Unmarked.nil
    | cons leaf front =>
      rw [shown_cons] at first
      rw [List.cons_append, shown_cons]
      cases written : (leaf.render ⟨firstBreak text, true⟩).toList with
      | nil => exact absurd written (allShown_cons.1 all.1).1
      | cons c rest =>
        rw [written] at first
        exact first
  rw [toList_source]
  split
  next =>
    split
    next =>
      have same : module.lineEnd = firstBreak text := congrArg Layout.lineEnd layout
      rw [same]
      rcases firstBreak_cases text with same | same | same <;> rw [same] <;> decide
    next => exact mine
  next =>
    by_cases none : module.leaves = []
    · simpa [none] using Unmarked.nil
    · rw [← List.dropLast_concat_getLast none, shown_append] at mine
      exact mine.of_append

theorem isFlush_of_source
    (made : ofLines? (firstBreak text) (hasFinalBreak text) source = some module)
    (same : module.source.toList = text) :
    isFlush (firstBreak text) (text.length + 1) [] text = true := by
  rcases ofLines?_front read made with ⟨layout, final, front, bare, ⟨others, begins⟩, whole, kept⟩
  have written : module.leaves = [] ∨ ∃ more, shown module.layout module.leaves = text ++ more := by
    by_cases none : module.leaves = []
    · exact .inl none
    rw [toList_source] at same
    split at same
    next =>
      rw [if_neg (by simpa using none)] at same
      exact .inr ⟨[], by rw [same, List.append_nil]⟩
    next =>
      rw [← List.dropLast_concat_getLast none, shown_append, same]
      exact .inr ⟨_, rfl⟩
  have space : Indent.AllSpace [] := by simp [Indent.AllSpace]
  rcases written with none | ⟨more, written⟩
  · rw [kept, ← begins] at none
    have empty := (List.append_eq_nil_iff.1 (List.append_eq_nil_iff.1 none).1).1
    have printed : shown ⟨firstBreak text, true⟩ (source.lines.flatMap Line.leaves) ++ text =
        text ++ [] := by simp [empty]
    exact isFlush_of_shown space read printed
  · rw [layout, kept, ← begins, List.append_assoc, shown_append] at written
    exact isFlush_of_shown space read written

theorem footer_of_source
    (made : ofLines? (firstBreak text) (hasFinalBreak text) source = some module)
    (same : module.source.toList = text) : keptFooter source.footer = source.footer ∧
      (text.getLast?.any isBreak = true → hasFinalBreak text = true) := by
  have flush := isFlush_of_source read made same
  have all := lines?_allShown read
  have written := lines?_shown read flush
  rcases ofLines?_front read made with ⟨layout, final, front, bare, -, whole, kept⟩
  have sub : module.leaves.Sublist source.leaves := by
    rw [whole, kept]
    exact (List.Sublist.refl front).append (keptFooter_leaves _)
  have exact (alike : module.leaves = source.leaves) :
      keptFooter source.footer = source.footer := by
    rw [whole, kept, List.append_cancel_left_eq] at alike
    exact keptFooter_of_leaves alike
  rw [toList_source, final, layout] at same
  by_cases none : module.leaves = []
  · have spent : source.footer = [] := bare (List.append_eq_nil_iff.1 (kept ▸ none)).1
    refine ⟨by rw [spent]; rfl, fun ends => ?_⟩
    cases closed : hasFinalBreak text with
    | true => rfl
    | false =>
      rw [closed, none] at same
      rw [← show [] = text from same] at ends
      cases ends
  by_cases ends : text.getLast?.any isBreak = true
  · have complete : shown ⟨firstBreak text, true⟩ source.leaves = text := by
      rw [written, completion_of_ended _ ends, List.append_nil]
    cases closed : hasFinalBreak text with
    | true =>
      rw [closed, if_pos rfl, if_neg (by simpa using none)] at same
      exact ⟨exact (eq_of_shown_eq all sub (same.trans complete.symm)), fun _ => rfl⟩
    | false =>
      -- The last leaf is not printed, so that something is missing.
      rw [closed, if_neg (by simp)] at same
      have alike := eq_of_shown_eq all ((List.dropLast_sublist _).trans sub) (same.trans complete.symm)
      have less := sub.length_le
      have some := List.length_pos_iff.2 none
      rw [← alike, List.length_dropLast] at less
      omega
  · have unended : text.getLast?.any isBreak = false := by simpa using ends
    have closed : hasFinalBreak text = false := by
      cases final : hasFinalBreak text with
      | false => rfl
      | true => exact absurd (isBreak_of_hasFinalBreak final) ends
    rw [closed, if_neg (by simp)] at same
    refine ⟨exact ?_, fun ends' => absurd ends' ends⟩
    have alike := eq_of_shown_eq (fun leaf mem => all leaf (List.dropLast_subset _ mem))
      (dropLast_sublist_dropLast sub) (same.trans (lines?_dropLast read flush unended).symm)
    have length := congrArg List.length alike
    have some := List.length_pos_iff.2 none
    have less := sub.length_le
    simp only [List.length_dropLast] at length
    exact sub.eq_of_length_le (by omega)

theorem source_of_flush
    (made : ofLines? (firstBreak text) (hasFinalBreak text) source = some module)
    (flush : isFlush (firstBreak text) (text.length + 1) [] text = true)
    (footed : keptFooter source.footer = source.footer)
    (ended : text.getLast?.any isBreak = true → hasFinalBreak text = true) :
    module.source.toList = text := by
  rcases ofLines?_front read made with ⟨layout, final, front, -, -, whole, kept⟩
  rw [footed, ← whole] at kept
  rw [toList_source, final, layout, kept]
  cases closed : hasFinalBreak text with
  | true =>
    have complete : shown ⟨firstBreak text, true⟩ source.leaves = text := by
      rw [lines?_shown read flush, completion_of_ended _ (isBreak_of_hasFinalBreak closed),
        List.append_nil]
    have present : source.leaves ≠ [] := by
      intro none
      rw [none] at complete
      rw [← show [] = text from complete] at closed
      cases closed
    rw [if_pos rfl, if_neg (by simpa using present), complete]
  | false =>
    rw [if_neg (by simp)]
    refine lines?_dropLast read flush ?_
    cases ends : text.getLast?.any isBreak with
    | false => rfl
    | true => exact absurd (ended ends) (by simp [closed])

end

end Module

/-- A source that comes back as it was read. -/
structure Verbatim (code : String) : Prop where
  unmarked : Unmarked code.toList
  flush : isFlush (firstBreak code.toList) (code.toList.length + 1) [] code.toList = true
  footed : ∀ source, lines? (firstBreak code.toList) code.toList = some source →
    Module.keptFooter source.footer = source.footer
  ended : code.toList.getLast?.any isBreak = true → Module.hasFinalBreak code.toList = true

namespace Verbatim

instance (code : String) : Decidable (Verbatim code) :=
  decidable_of_iff (Unmarked code.toList ∧
      isFlush (firstBreak code.toList) (code.toList.length + 1) [] code.toList = true ∧
      (lines? (firstBreak code.toList) code.toList).all
        (fun source => decide (Module.keptFooter source.footer = source.footer)) = true ∧
      (code.toList.getLast?.any isBreak = true → Module.hasFinalBreak code.toList = true))
    ⟨fun ⟨unmarked, flush, footed, ended⟩ =>
      ⟨unmarked, flush, by simpa [Option.all_eq_true] using footed, ended⟩,
    fun ⟨unmarked, flush, footed, ended⟩ =>
      ⟨unmarked, flush, by simpa [Option.all_eq_true] using footed, ended⟩⟩

/-- Comments, line ends of every kind and a last line without one come back as they were. -/
example : Verbatim "if x:\r\n    f(y,\n  z)  # w\r\n\r    # in\n# out" := by decide +kernel

/-- A form feed is no margin. -/
example : ¬ Verbatim "\x0cx\n" := by decide +kernel

/-- A footer that ends in an indented comment is left out. -/
example : ¬ Verbatim "x\n  # y\n" := by decide +kernel

end Verbatim

/-- Exactly these sources are printed as they were read. -/
theorem Module.source_eq_iff {code : String} {module : Module} (parsed : parse? code = some module) :
    module.source = code ↔ Verbatim code := by
  -- A byte order mark is dropped before the lines are read.
  obtain ⟨text, plain, inside⟩ : ∃ text, (Unmarked code.toList → text = code.toList) ∧
      (lines? (firstBreak text) text).bind (ofLines? (firstBreak text) (hasFinalBreak text)) =
        some module := by
    refine ⟨_, fun unmarked => ?_, parsed⟩
    split
    next none => exact none.symm
    next c rest same =>
      rw [same, unmarked_cons] at unmarked
      rw [if_neg unmarked, same]
  rcases Option.bind_eq_some_iff.1 inside with ⟨source, read, made⟩
  constructor
  · intro same
    have unmarked := source_unmarked read made
    rw [same] at unmarked
    have known := plain unmarked
    subst known
    have kept := footer_of_source read made (by rw [same])
    refine ⟨unmarked, isFlush_of_source read made (by rw [same]), fun other again => ?_, kept.2⟩
    rw [read] at again
    cases again
    exact kept.1
  · intro verbatim
    have known := plain verbatim.unmarked
    subst known
    exact String.toList_inj.1 (source_of_flush read made verbatim.flush (verbatim.footed source read)
      verbatim.ended)

end Graft
