import Graft.Proofs.Lossless.Source
import Graft.Proofs.Tree.Address

set_option autoImplicit false

/-!
Nothing is added to a source. Apart from margins and from the line ends that the module uses, the leaves of
what is read from a text are no longer than the text, flush or not.
-/
namespace Graft

open Source

/-- Leaves without margins and without the line ends of the module. -/
def Layout.bare : Layout := ⟨"", false⟩

namespace Node

theorem sublist_leavesAll {node : Node} {nodes : List Node} (mem : node ∈ nodes) :
    node.leaves.Sublist (leaves.leavesAll nodes) := by
  induction nodes with
  | nil => exact absurd mem List.not_mem_nil
  | cons first rest ih =>
    rw [leavesAll_cons]
    rcases List.mem_cons.1 mem with rfl | later
    · exact List.sublist_append_left _ _
    · exact (ih later).trans (List.sublist_append_right _ _)

theorem sublist_leaves {path : Address} {node part : Node} (found : node.part? path = some part) :
    part.leaves.Sublist node.leaves := by
  induction path generalizing node with
  | nil => exact Option.some.inj found ▸ List.Sublist.refl _
  | cons i path ih =>
    rw [part?_cons, Option.bind_eq_some_iff] at found
    obtain ⟨child, here, found⟩ := found
    refine (ih found).trans ?_
    cases node with
    | leaf l => simp [children] at here
    | name parens id => simp [children] at here
    | branch kind parens children =>
      obtain ⟨opening, closing⟩ := parens
      rw [leaves_branch]
      exact ((sublist_leavesAll (List.mem_of_getElem? here)).trans (List.sublist_append_right _ _)).trans
        (List.sublist_append_left _ _)

end Node

theorem shown_sublist {layout : Layout} {part whole : List Leaf} (among : part.Sublist whole) :
    (shown layout part).length ≤ (shown layout whole).length := by
  induction among with
  | slnil => exact Nat.le_refl _
  | cons leaf _ ih =>
    rw [shown_cons, List.length_append]
    omega
  | cons_cons leaf _ ih =>
    rw [shown_cons, shown_cons, List.length_append, List.length_append]
    omega

theorem shown_bare_le (lineEnd : String) (leaves : List Leaf) :
    (shown .bare leaves).length ≤ (shown ⟨lineEnd, true⟩ leaves).length := by
  induction leaves with
  | nil => exact Nat.le_refl _
  | cons leaf rest ih =>
    rw [shown_cons, shown_cons, List.length_append, List.length_append]
    have first : (leaf.render .bare).toList.length ≤ (leaf.render ⟨lineEnd, true⟩).toList.length := by
      cases leaf with
      | text written => exact Nat.le_refl _
      | lineEnd own => cases own <;> simp [Leaf.render, Layout.bare]
      | margin written => simp [Leaf.render, Layout.bare]
    omega

@[simp] theorem shown_bare_marginLeaf (margin : Chars) : shown .bare (marginLeaf margin) = [] := by
  cases margin <;> simp [marginLeaf, Leaf.render, Layout.bare]

theorem shown_bare_breakLeaf_le (lineEnd : String) (written : Chars) :
    (shown .bare [breakLeaf lineEnd written]).length ≤ written.length := by
  simpa using shown_bare_le lineEnd [breakLeaf lineEnd written]

@[simp] theorem shown_bare_lineEnd : shown .bare [.lineEnd none] = [] := rfl

namespace Source

theorem tokens?_length {setup : Setup} {fuel : Nat} {frames : List Frame} {text rest : Chars}
    {tokens : List Token} {trail : List Leaf} (sound : ∀ frame ∈ frames, frame.isSound = true)
    (read : tokens? setup fuel frames text = some (tokens, trail, rest)) :
    (shown .bare (tokens.flatMap Token.leaves ++ trail)).length + rest.length ≤ text.length := by
  induction fuel generalizing frames text tokens with
  | zero => cases read
  | succ fuel ih =>
    have gap := congrArg List.length (gapOnLine_append .bare text)
    rw [List.length_append] at gap
    cases scanned_of_tokens? sound read with
    | stop outside all =>
      simp only [List.flatMap_nil, List.nil_append, shown_append, shown_bare_lineEnd, List.append_nil,
        List.length_nil]
      omega
    | @line written rest outside broken =>
      have split := congrArg List.length (breakAt?_splits _ _ _ broken).1
      have ending := shown_bare_breakLeaf_le setup.lineEnd written
      simp only [List.flatMap_nil, List.nil_append, shown_append, List.length_append] at split ⊢
      omega
    | @token gap inner rest taken others trail _ _ before _ _ fits _ more =>
      have after := ih fits.sound more
      have less := shown_bare_le setup.lineEnd gap
      have before := congrArg List.length before
      have split := congrArg List.length fits.split
      simp only [List.flatMap_cons, Token.leaves, Taken.token, shown_append, shown_cons, shown_nil,
        render_text, String.toList_ofList, List.append_nil, List.length_append] at after before split ⊢
      omega

theorem linesFrom?_length {lineEnd : String} {fuel : Nat} {stack : Indent.Stack} {above : List Blank}
    {text : Chars} {source : Lines} (read : linesFrom? lineEnd fuel stack above text = some source) :
    (shown .bare source.leaves).length ≤
      (shown .bare (above.flatMap Blank.leaves)).length + text.length := by
  induction fuel generalizing stack above text source with
  | zero => cases read
  | succ fuel ih =>
    cases lined_of_linesFrom? read with
    | done => simp [Lines.leaves]
    | last => simp [Lines.leaves, Blank.leaves, Leaf.render, Layout.bare]
    | @blank front written after source _ _ _ more =>
      have later := ih more
      have ending := shown_bare_breakLeaf_le lineEnd written
      simp only [List.flatMap_append, List.flatMap_cons, List.flatMap_nil, List.append_nil, Blank.leaves,
        shown_append, shown_textLeaf, List.length_append] at later ⊢
      omega
    | @line front rest after inner tokens trail source _ _ _ _ _ _ tokenized more =>
      have later := ih more
      have line := tokens?_length (by simp) tokenized
      simp only [Lines.leaves, List.flatMap_cons, Line.leaves, Line.before, shown_append,
        shown_bare_marginLeaf, List.append_nil, List.length_append, List.flatMap_nil, shown_nil,
        List.length_nil] at later line ⊢
      omega

end Source

namespace Module

theorem length_of_parse? {code : String} {module : Module} (parsed : parse? code = some module) :
    (shown .bare module.leaves).length ≤ code.toList.length := by
  obtain ⟨text, shorter, inside⟩ : ∃ text : Chars, text.length ≤ code.toList.length ∧
      (lines? (firstBreak text) text).bind (ofLines? (firstBreak text) (hasFinalBreak text)) =
        some module := by
    refine ⟨_, ?_, parsed⟩
    split
    next => simp
    next c rest same =>
      rw [same]
      split <;> simp
  obtain ⟨source, read, made⟩ := Option.bind_eq_some_iff.1 inside
  obtain ⟨-, -, front, -, -, whole, kept⟩ := ofLines?_front read made
  have among : module.leaves.Sublist source.leaves := by
    rw [whole, kept]
    exact (List.Sublist.refl front).append (keptFooter_leaves _)
  have bound := linesFrom?_length read
  simp only [List.flatMap_nil, shown_nil, List.length_nil] at bound
  have less := @shown_sublist .bare _ _ among
  omega

end Module

end Graft
