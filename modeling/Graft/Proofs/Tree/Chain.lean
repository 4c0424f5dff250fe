import Graft.Proofs.Lossless.Reader
import Graft.Proofs.Tree.DottedName

set_option autoImplicit false

/-!
Chains of attributes and the texts that they spell. A text is spelled by a chain exactly if its segments are
identifiers. The chain that is made for it is written without brackets and blanks, and every other chain of the
text is this one with brackets and blanks.
-/
namespace Graft.Node

/-- A name, or an attribute of a chain. -/
inductive IsChain : Node → Prop
  | name (parens : Parens) (id : Identifier) : IsChain (.name parens id)
  | member {base : Node} (parens around : Parens) (dot : Node) (id : Identifier) :
      IsChain base → IsChain (.branch .member parens [base, dot, .name around id])

/-- A chain without brackets around its parts, and with no blanks around its points. -/
def bared : Node → Node
  | .name _ id => .name {} id
  | .branch .member _ [base, _, .name _ id] =>
    .plain .member [base.bared, .glue [.text "."], .name {} id]
  | node => node

theorem fullName_ne_empty_of_isChain {node : Node} (chain : node.IsChain) : node.fullName ≠ "" := by
  induction chain with
  | name parens id => exact isIdentifier_ne_empty id.valid
  | member parens around dot id _ ih =>
    rw [fullName, if_neg ih]
    simp

/-- A chain that begins with anything but a name has no full name, however long it is. -/
theorem isChain_of_fullName_ne_empty {node : Node} (some : node.fullName ≠ "") : node.IsChain := by
  induction node with
  | leaf l => exact absurd rfl some
  | name parens id => exact .name parens id
  | branch kind parens children ih =>
    unfold fullName at some
    split at some
    next same => exact absurd same (by simp)
    next base dot around id same =>
      injection same with member brackets parts
      subst member parts
      by_cases empty : base.fullName = ""
      next => exact absurd (if_pos empty) some
      next => exact .member parens around dot id (ih base (by simp) empty)
    next => exact absurd rfl some

theorem fullName_ne_empty_iff {node : Node} : node.fullName ≠ "" ↔ node.IsChain :=
  ⟨isChain_of_fullName_ne_empty, fullName_ne_empty_of_isChain⟩

theorem IsChain.fullName_member {base : Node} (chain : base.IsChain) (parens around : Parens) (dot : Node)
    (id : Identifier) :
    (branch .member parens [base, dot, .name around id]).fullName = base.fullName ++ "." ++ id.text := by
  rw [fullName, if_neg (fullName_ne_empty_of_isChain chain)]

theorem ofSegments_concat {segments : List String} (some : segments ≠ []) (last : String) :
    ofSegments (segments ++ [last]) = (ofSegments segments >>= fun base => attributeOf base last) := by
  cases segments with
  | nil => exact absurd rfl some
  | cons first rest => simp [ofSegments]

/-- The full name of a chain splits where the chain does, so what is made of it is the chain again. -/
theorem ofDotted_fullName {node : Node} (chain : node.IsChain) : ofDotted node.fullName = .ok node.bared := by
  induction chain with
  | name parens id =>
    rw [ofDotted, fullName, Dotted.segments_of_isIdentifier id.valid, ofSegments, ofIdentifier_eq_ok id.valid]
    rfl
  | @member base parens around dot id chain ih =>
    rw [ofDotted] at ih
    rw [ofDotted, chain.fullName_member, Dotted.segments_append_point, Dotted.segments_of_isIdentifier id.valid,
      ofSegments_concat (Dotted.segments_ne_nil _), ih]
    exact attributeOf_eq_ok base.bared id.valid

theorem source_bared {node : Node} (chain : node.IsChain) : node.bared.source = node.fullName := by
  induction chain with
  | name parens id => simp [bared, source, renderLeaves, Leaf.render, fullName]
  | member parens around dot id chain ih =>
    rw [chain.fullName_member, ← ih]
    simp [bared, source, renderLeaves, Leaf.render, String.append_assoc]

theorem exists_ofDotted_iff {text : String} :
    (∃ node, ofDotted text = .ok node) ↔ ∀ segment ∈ Dotted.segments text, isIdentifier segment = true := by
  constructor
  next =>
    rintro ⟨node, made⟩
    exact isIdentifier_of_ofSegments made
  next =>
    intro valid
    obtain ⟨node, made, -⟩ := ofDotted_spells valid
    exact ⟨node, made⟩

theorem fullName_of_ofDotted {text : String} {node : Node} (made : ofDotted text = .ok node) :
    node.fullName = text := by
  obtain ⟨other, same, spells⟩ := ofDotted_spells (isIdentifier_of_ofSegments made)
  obtain rfl := Except.ok.inj (same.symm.trans made)
  exact spells.fullName

/-- The empty text has one segment, which is no identifier. -/
theorem isChain_of_ofDotted {text : String} {node : Node} (made : ofDotted text = .ok node) : node.IsChain := by
  refine isChain_of_fullName_ne_empty ?_
  rw [fullName_of_ofDotted made]
  rintro rfl
  exact absurd (exists_ofDotted_iff.1 ⟨node, made⟩ "" (by decide)) (by decide)

/-- What is made of a text is bare. -/
theorem source_of_ofDotted {text : String} {node : Node} (made : ofDotted text = .ok node) :
    node.source = text := by
  have chain := isChain_of_ofDotted made
  have same := fullName_of_ofDotted made
  have again := ofDotted_fullName chain
  rw [same, made] at again
  rw [Except.ok.inj again, source_bared chain, same]

/-- Dotted texts and chains of attributes correspond. A text can be made into a chain exactly if each of its
segments is an identifier, and the chain then has the text as its full name, and is written as the text.
The expressions with a full name are the chains that begin with a name, and what is made of the full name
is the expression without its brackets and blanks. -/
theorem dotted_correspond :
    (∀ text,
      ((∃ node, ofDotted text = .ok node) ↔
        ∀ segment ∈ Dotted.segments text, isIdentifier segment = true) ∧
      ∀ node, ofDotted text = .ok node → node.fullName = text ∧ node.source = text) ∧
    ∀ node : Node,
      (node.fullName ≠ "" ↔ node.IsChain) ∧
      (node.fullName ≠ "" → ofDotted node.fullName = .ok node.bared) := by
  refine ⟨fun text => ⟨exists_ofDotted_iff, fun node made => ?_⟩, fun node => ⟨fullName_ne_empty_iff, fun some => ?_⟩⟩
  next => exact ⟨fullName_of_ofDotted made, source_of_ofDotted made⟩
  next => exact ofDotted_fullName (isChain_of_fullName_ne_empty some)

end Graft.Node
