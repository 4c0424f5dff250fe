import Graft.Proofs.Grammar.Part
import Graft.Proofs.Identifier
import Graft.Proofs.Outcome
import Graft.Tree.DottedName

set_option autoImplicit false

/-!
A chain of attributes made of some identifiers spells them, with points between.
-/
namespace Graft

theorem Dotted.join_cons (first : List Char) (rest : List (List Char)) :
    join (first :: rest) = first ++ rest.flatMap ('.' :: ·) := by
  induction rest generalizing first with
  | nil => simp [join]
  | cons next more ih => simp [join, ih]

theorem Dotted.ofSegments_concat (first : String) (rest : List String) (last : String) :
    ofSegments (first :: rest ++ [last]) = ofSegments (first :: rest) ++ "." ++ last := by
  rw [← String.toList_inj]
  simp [ofSegments, join_cons]

theorem isIdentifier_ne_empty {text : String} (valid : isIdentifier text = true) : text ≠ "" := by
  rintro rfl
  exact absurd valid (by decide)

namespace Node

theorem ofIdentifier_eq_ok {text : String} (valid : isIdentifier text = true) :
    ofIdentifier text = .ok (.name {} ⟨text, valid⟩) := by
  simp [ofIdentifier, Identifier.ofString_eq_ok valid, Except.map]

theorem isIdentifier_of_ofIdentifier {text : String} {node : Node} (made : ofIdentifier text = .ok node) :
    isIdentifier text = true := by
  obtain ⟨id, spelled, -⟩ := map_eq_ok.1 made
  exact Identifier.text_of_ofString spelled ▸ id.valid

theorem attributeOf_eq_ok (base : Node) {text : String} (valid : isIdentifier text = true) :
    attributeOf base text =
      .ok (.plain .member [base, .glue [.text "."], .name {} ⟨text, valid⟩]) := by
  simp [attributeOf, Identifier.ofString_eq_ok valid, Except.map]

/-- What a chain of attributes is that spells a text. -/
structure Spells (node : Node) (text : String) : Prop where
  part : node.Part
  isDotted : node.isDotted = true
  fullName : node.fullName = text

theorem Spells.name {text : String} (valid : isIdentifier text = true) :
    Spells (.name {} ⟨text, valid⟩) text := ⟨.name _ _, rfl, rfl⟩

theorem Spells.attribute {base : Node} {before text : String} (spells : base.Spells before)
    (present : before ≠ "") (valid : isIdentifier text = true) :
    Spells (.plain .member [base, .glue [.text "."], .name {} ⟨text, valid⟩])
      (before ++ "." ++ text) where
  part := .plain rfl (by simp [spells.part])
  isDotted := by simpa [Node.isDotted, plain] using ⟨spells.isDotted, rfl⟩
  fullName := by simp [Node.fullName, plain, spells.fullName, present]

theorem ofSegments_spells (first : String) (rest : List String)
    (valid : ∀ segment ∈ first :: rest, isIdentifier segment = true) :
    ∃ node, ofSegments (first :: rest) = .ok node ∧
      node.Spells (Dotted.ofSegments (first :: rest)) := by
  have head_valid : isIdentifier first = true := valid first (by simp)
  have chain (base : Node) (read : List String) (base_spells : base.Spells (Dotted.ofSegments (first :: read)))
      (rest : List String) (valid : ∀ segment ∈ rest, isIdentifier segment = true) :
      ∃ node, rest.foldlM attributeOf base = .ok node ∧
        node.Spells (Dotted.ofSegments (first :: read ++ rest)) := by
    induction rest generalizing base read with
    | nil => exact ⟨base, rfl, by simpa using base_spells⟩
    | cons segment rest ih =>
      have present : Dotted.ofSegments (first :: read) ≠ "" := by
        have head := isIdentifier_ne_empty head_valid
        rw [Ne, ← String.toList_inj] at head ⊢
        rw [Dotted.ofSegments, List.map_cons, Dotted.join_cons, String.toList_ofList]
        exact fun none => head (List.append_eq_nil_iff.1 none).1
      have here := base_spells.attribute present (valid segment (by simp))
      rw [← Dotted.ofSegments_concat] at here
      obtain ⟨node, made, spells⟩ := ih _ (read ++ [segment]) here fun other mem => valid other (by simp [mem])
      refine ⟨node, ?_, by simpa using spells⟩
      rw [List.foldlM_cons, attributeOf_eq_ok base (valid segment (by simp))]
      exact made
  obtain ⟨node, made, spells⟩ := chain (.name {} ⟨first, valid first (by simp)⟩) []
    (by simpa [Dotted.ofSegments, Dotted.join] using Spells.name _) rest fun other mem => valid other (by simp [mem])
  refine ⟨node, ?_, by simpa using spells⟩
  rw [ofSegments, ofIdentifier_eq_ok (valid first (by simp))]
  exact made

theorem isIdentifier_of_attributeOf {base node : Node} {text : String}
    (made : attributeOf base text = .ok node) : isIdentifier text = true := by
  obtain ⟨id, spelled, -⟩ := map_eq_ok.1 made
  exact Identifier.text_of_ofString spelled ▸ id.valid

/-- Only identifiers can be chained. -/
theorem isIdentifier_of_ofSegments {segments : List String} {node : Node}
    (made : ofSegments segments = .ok node) : ∀ segment ∈ segments, isIdentifier segment = true := by
  have chain (rest : List String) (base : Node) (made : rest.foldlM attributeOf base = .ok node) :
      ∀ segment ∈ rest, isIdentifier segment = true := by
    induction rest generalizing base with
    | nil => simp
    | cons segment rest ih =>
      rw [List.foldlM_cons] at made
      obtain ⟨longer, grown, made⟩ := bind_eq_ok.1 made
      exact List.forall_mem_cons.2 ⟨isIdentifier_of_attributeOf grown, ih longer made⟩
  cases segments with
  | nil => simp
  | cons first rest =>
    rw [ofSegments] at made
    obtain ⟨base, head, made⟩ := bind_eq_ok.1 made
    exact List.forall_mem_cons.2 ⟨isIdentifier_of_ofIdentifier head, chain rest base made⟩

theorem ofDotted_spells {text : String}
    (valid : ∀ segment ∈ Dotted.segments text, isIdentifier segment = true) :
    ∃ node, ofDotted text = .ok node ∧ node.Spells text := by
  rw [ofDotted]
  cases parts : Dotted.segments text with
  | nil => exact absurd parts (Dotted.segments_ne_nil text)
  | cons first rest =>
    rw [parts] at valid
    have whole := ofSegments_spells first rest valid
    have same : Dotted.ofSegments (first :: rest) = text := by
      rw [← parts, Dotted.ofSegments_segments]
    rwa [same] at whole

end Node

end Graft
