import Graft.Proofs.Grammar.Yields
import Graft.Proofs.Tree.Shape

set_option autoImplicit false

/-!
Parentheses can be written around every expression that the rules give: none is a bare leaf.
-/
namespace Graft

theorem Node.isLeaf_wrap (node : Node) (opening closing : List Leaf) :
    (node.wrap opening closing).isLeaf = node.isLeaf := by
  cases node <;> rfl

namespace Grammar

open Reader

def Solid (reader : Reader Node) : Prop := Yields reader fun node => node.isLeaf = false

theorem name_solid : Solid Reader.name := .step fun _ => .pure rfl

theorem constant_solid : Solid constant := by
  refine .step fun _ => .ite (fun _ => .step fun text => ?_) fun _ => .failure
  cases Identifier.ofString text with
  | ok id => exact .pure rfl
  | error => exact .failure

theorem chain_solid {kind : Kind} {operator : Reader (List Leaf)} {operand : Reader Node}
    (each : Solid operand) : Solid (chain kind operator operand) := by
  refine .bind each fun first solid => .step fun others => .pure ?_
  induction others generalizing first with
  | nil => exact solid
  | cons other rest ih => exact ih _ rfl

section

variable {rules : Rules}

theorem starOr_solid {reader : Reader Node} (other : Solid reader) : Solid (starOr rules reader) :=
  .step fun _ => .ite (fun _ => .step fun _ => .step fun _ => .pure rfl) fun _ => other

theorem yielding_solid : Solid (yielding rules) := by
  refine .step fun _ => .step fun _ => .ite (fun _ => ?_) fun _ => .step fun found => ?_
  · exact .step fun _ => .step fun _ => .pure rfl
  · cases found with
    | none => exact .pure rfl
    | some found => exact .pure rfl

theorem comprehension_solid {kind : Kind} {before : List Leaf} {item : Node}
    {after : Reader (List Leaf)} : Solid (comprehension rules kind before item after) :=
  .step fun _ => .step fun _ => .pure rfl

theorem bracketed_solid {kind : Kind} {before : List Leaf} {first : Node} {item : Reader Node}
    {close : String} : Solid (bracketed kind before first item close) :=
  .step fun _ => .step fun _ => .pure rfl

theorem listDisplay_solid : Solid (listDisplay rules) :=
  .step fun _ => .step fun _ => .ite (fun _ => .step fun _ => .pure rfl) fun _ => .step fun _ =>
    .step fun _ => .ite (fun _ => .ite (fun _ => .failure) fun _ => comprehension_solid)
      fun _ => bracketed_solid

theorem dictOf_solid {before : List Leaf} {entries : List Node} : Solid (dictOf before entries) :=
  .ite (fun _ => .step fun _ => .pure rfl) fun _ => .step fun _ => .pure rfl

theorem braced_solid : Solid (braced rules) := by
  have set (before : List Leaf) (first : Node) : Solid (braced.setOf rules before first) :=
    .step fun _ => .ite (fun _ => comprehension_solid) fun _ => bracketed_solid
  refine .step fun _ => .step fun _ => .step fun _ => .ite (fun _ => .step fun _ => dictOf_solid)
    fun _ => .step fun _ => .ite (fun _ => .step fun _ => bracketed_solid) fun _ => .step fun _ =>
      .ite (fun _ => set _ _) fun _ => .step fun _ => .ite (fun _ => ?_) fun _ => set _ _
  refine .step fun _ => .step fun _ => .step fun _ => .ite (fun _ => comprehension_solid) fun _ => ?_
  exact .step fun _ => .ite (fun _ => .step fun _ => dictOf_solid) fun _ => .step fun _ => dictOf_solid

theorem strings_solid : Solid (strings rules) := by
  have each : Solid (stringLiteral rules) :=
    .step fun _ => .ite (fun _ => .step fun _ => .pure rfl) fun _ =>
      .step fun _ => .step fun _ => .step fun _ => .pure rfl
  refine .bind each fun first solid => .step fun others => .pure ?_
  cases others with
  | nil => exact solid
  | cons other rest => rfl

variable (good : Solid (rules .expression))

include good

theorem named_solid : Solid (named rules) := by
  refine .step fun _ => .step fun _ => .ite (fun _ => ?_) fun _ => good
  exact .step fun _ => .step fun _ => .step fun _ => .pure rfl

theorem parenthesised_solid : Solid (parenthesised rules) := by
  have wrapped {value : Node} {before : List Leaf} (solid : value.isLeaf = false) :
      Solid (do return value.wrap before (← mark ")")) :=
    .step fun _ => .pure (by rw [Node.isLeaf_wrap, solid])
  refine .step fun _ => .step fun _ => .ite (fun _ => .step fun _ => .pure rfl) fun _ =>
    .step fun _ => .ite (fun _ => .bind yielding_solid fun _ => wrapped) fun _ =>
    .bind (starOr_solid (named_solid good)) fun first solid => .step fun _ => .ite (fun _ => ?_) fun _ =>
    .step fun _ => .ite (fun _ => ?_) fun _ => .ite (fun _ => .failure) fun _ => wrapped solid
  · exact .ite (fun _ => .failure) fun _ => .bind comprehension_solid fun _ => wrapped
  · exact .step fun _ => .step fun _ => .pure rfl

theorem atom_solid : Solid (atom rules) := by
  refine .step fun _ => .ite (fun _ => parenthesised_solid good) fun _ =>
    .step fun _ => .ite (fun _ => listDisplay_solid) fun _ =>
    .step fun _ => .ite (fun _ => braced_solid) fun _ =>
    .step fun _ => .ite (fun _ => .step fun _ => .pure rfl) fun _ =>
    .step fun _ => .ite (fun _ => .step fun _ => .pure rfl) fun _ =>
    .step fun _ => .step fun _ => .ite (fun _ => strings_solid) fun _ =>
    .orElse constant_solid name_solid

omit good in
theorem trailers_solid (fuel : Nat) {base : Node} (solid : base.isLeaf = false) :
    Solid (trailers rules fuel base) := by
  induction fuel generalizing base with
  | zero => exact .pure solid
  | succ fuel ih =>
    have member : Solid (attributeOf base) := .step fun _ => .step fun _ => .pure rfl
    have called : Solid (callArguments rules base) :=
      .step fun _ => .step fun _ => .step fun _ => .pure rfl
    have subscripted : Solid (subscriptItems rules base) :=
      .step fun _ => .step fun _ => .step fun _ => .step fun _ => .pure rfl
    exact .step fun _ => .ite (fun _ => .bind member fun _ => ih) fun _ =>
      .step fun _ => .ite (fun _ => .bind called fun _ => ih) fun _ =>
      .step fun _ => .ite (fun _ => .bind subscripted fun _ => ih) fun _ => .pure solid

theorem primary_solid : Solid (primary rules) :=
  .bind (atom_solid good) fun _ solid => .step fun _ => trailers_solid _ solid

theorem factor_solid : Solid (factor rules) := by
  have awaited : Solid (awaited rules) :=
    .step fun _ => .ite (fun _ => .step fun _ => .step fun _ => .pure rfl) fun _ => primary_solid good
  have power : Solid (power rules) :=
    .bind awaited fun _ solid => .step fun _ =>
      .ite (fun _ => .step fun _ => .step fun _ => .pure rfl) fun _ => .pure solid
  exact .step fun _ => .ite (fun _ => .step fun _ => .step fun _ => .pure rfl) fun _ => power

theorem bitwiseOr_solid : Solid (bitwiseOr rules) :=
  chain_solid <| chain_solid <| chain_solid <| chain_solid <| chain_solid <| chain_solid <|
    factor_solid good

theorem inversion_solid : Solid (inversion rules) :=
  .step fun _ => .ite (fun _ => .step fun _ => .step fun _ => .pure rfl) fun _ =>
    chain_solid (bitwiseOr_solid good)

theorem disjunction_solid : Solid (disjunction rules) :=
  chain_solid <| chain_solid <| inversion_solid good

theorem expression_solid : Solid (expression rules) :=
  .step fun _ => .ite (fun _ => .step fun _ => .step fun _ => .step fun _ => .step fun _ => .pure rfl)
    fun _ => .bind (disjunction_solid good) fun _ solid => .step fun _ =>
      .ite (fun _ => .step fun _ => .step fun _ => .step fun _ => .step fun _ => .pure rfl)
        fun _ => .pure solid

end

end Grammar

end Graft
