import Graft.Proofs.Lossless.Bare
import Graft.Proofs.Module
import Graft.Proofs.Scope.Silence

set_option autoImplicit false

/-!
How deep strings are read. A text inside a string is shorter than the source that the string is written in,
so that a survey that may go as deep as its source is long reads every hint to its end.
-/
namespace Graft

namespace Literal

theorem length_plainBreaks_le (text : Source.Chars) : (plainBreaks text).length ≤ text.length := by
  fun_induction plainBreaks text with
  | case1 rest ih => simp only [List.length_cons]; omega
  | case2 rest _ ih => simp only [List.length_cons]; omega
  | case3 c rest _ _ ih => simp only [List.length_cons]; omega
  | case4 => exact Nat.le_refl _

theorem length_of_hexNumber? {count value code : Nat} {text rest : Source.Chars}
    (read : hexNumber? count value text = some (code, rest)) : rest.length ≤ text.length := by
  fun_induction hexNumber? count value text with
  | case1 value text =>
    cases read
    exact Nat.le_refl _
  | case2 => cases read
  | case3 value count c text ih =>
    obtain ⟨digit, -, read⟩ := Option.bind_eq_some_iff.1 read
    exact Nat.le_succ_of_le (ih digit read)

theorem length_octalNumber_le (count value : Nat) (text : Source.Chars) :
    (octalNumber count value text).2.length ≤ text.length := by
  fun_induction octalNumber count value text with
  | case1 => exact Nat.le_refl _
  | case2 => exact Nat.le_refl _
  | case3 value count c rest digit _ ih => exact Nat.le_succ_of_le ih
  | case4 => exact Nat.le_refl _

theorem length_of_afterName? {text rest : Source.Chars} (read : afterName? text = some rest) :
    rest.length < text.length := by
  unfold afterName? at read
  split at read
  next inner =>
    split at read
    next c after same =>
      split at read
      next => cases read
      next =>
        cases read
        have less := (List.dropWhile_sublist (· != '}') (l := inner)).length_le
        rw [same] at less
        simp only [List.length_cons] at less ⊢
        omega
    next => cases read
  next => cases read

/-- An escape stands for no more codes than it has characters. -/
theorem length_of_escape {bytes : Bool} {text after : Source.Chars} {first : List Nat}
    (read : escape bytes text = .ok (first, after)) : first.length + after.length ≤ text.length + 1 := by
  unfold escape at read
  split at read
  next => cases read; simp
  next c rest =>
    split at read
    next =>
      cases read
      simp only [List.length_nil, List.length_cons]
      omega
    next =>
      split at read
      next => cases read; simp; omega
      next =>
        split at read
        next code left number =>
          have less := length_of_hexNumber? number
          split at read
          next => cases read; simp; omega
          next => cases read
        next => cases read
      next =>
        split at read
        next octal =>
          -- The first digit is read already, so two more may follow.
          have less := length_octalNumber_le 2 (0 * 8 + (digitValue? 8 c).get octal) rest
          have start : octalNumber 3 0 (c :: rest) =
              octalNumber 2 (0 * 8 + (digitValue? 8 c).get octal) rest := by
            rw [octalNumber]
            split
            next digit known => simp only [known, Option.get_some]
            next none => simp [none] at octal
          rw [start] at read
          cases read
          simp only [List.length_cons, List.length_nil]
          omega
        next =>
          split at read
          next =>
            split at read
            next left name =>
              have less := length_of_afterName? name
              cases read
              simp only [List.length_cons, List.length_nil]
              omega
            next => cases read
          next => cases read; simp; omega

theorem length_of_codes {raw bytes : Bool} {fuel : Nat} {text : Source.Chars} {values : List Nat}
    (read : codes raw bytes fuel text = .ok values) : values.length ≤ text.length := by
  induction fuel generalizing text values with
  | zero => cases read; simp
  | succ fuel ih =>
    cases text with
    | nil => cases read; simp
    | cons c rest =>
      rw [codes] at read
      split at read
      next =>
        obtain ⟨⟨first, after⟩, escaped, read⟩ := bind_eq_ok.1 read
        obtain ⟨later, ran, same⟩ := bind_eq_ok.1 read
        cases same
        have head := length_of_escape escaped
        have tail := ih ran
        simp only [List.length_append, List.length_cons]
        omega
      next =>
        obtain ⟨later, ran, same⟩ := bind_eq_ok.1 read
        cases same
        have tail := ih ran
        simp only [List.length_cons]
        omega

theorem length_of_quoteAt? {raw : Bool} {text rest : Source.Chars} {quote : Source.Quote}
    (found : Source.quoteAt? raw text = some (quote, rest)) : rest.length < text.length := by
  unfold Source.quoteAt? at found
  split at found
  next =>
    split at found
    next => split at found <;> cases found <;> simp only [List.length_cons] <;> omega
    next => cases found
  next =>
    split at found
    next => cases found; simp
    next => cases found
  next => cases found

theorem length_of_decode {written : String} {value : Value} (decoded : decode written = .ok value) :
    Scope.literalText value = [] ∨ (Scope.literalText value).length < written.toList.length := by
  unfold decode at decoded
  split at decoded
  next => cases decoded; exact .inl rfl
  next quote rest found =>
    refine .inr ?_
    have opened := length_of_quoteAt? found
    have front := (List.dropWhile_sublist (fun c => !Source.isQuote c) (l := written.toList)).length_le
    have body := length_plainBreaks_le (rest.take (rest.length - quote.chars.length))
    have less := List.length_take_le (rest.length - quote.chars.length) rest
    dsimp only at decoded
    split at decoded
    next => cases decoded
    next =>
      obtain ⟨values, ran, same⟩ := bind_eq_ok.1 decoded
      have count := length_of_codes ran
      split at same <;> cases same <;> simp only [Scope.literalText, List.length_map] <;> omega

end Literal

theorem Module.leaves_root (module : Module) : module.root.leaves = module.leaves := by
  simp [Module.root, Module.leaves, Node.leaves_plain]

namespace Scope

theorem literalText_joinValues? {first second joined : Literal.Value}
    (made : joinValues? first second = some joined) :
    literalText joined = literalText first ++ literalText second := by
  unfold joinValues? at made
  split at made
  next => cases made; rfl
  next => cases made; simp [literalText]
  next => cases made

theorem length_of_valueOf? {node : Node} {value : Literal.Value} (valued : valueOf? node = .ok (some value)) :
    literalText value = [] ∨ (literalText value).length < (shown .bare node.leaves).length := by
  fun_induction valueOf? node generalizing value with
  | case1 parens written found decoded =>
    cases valued
    obtain ⟨opening, closing⟩ := parens
    refine (Literal.length_of_decode decoded).imp_right fun less => ?_
    simp only [Node.leavesAll_cons, Node.leaves, Node.leavesAll_nil, shown_append, shown_cons,
      render_text, shown_nil, List.append_nil, List.length_append]
    omega
  | case2 => cases valued
  | case3 => cases valued
  | case4 parens left gap right _ ihLeft ihRight =>
    obtain ⟨first, found, valued⟩ := bind_eq_ok.1 valued
    obtain ⟨second, known, valued⟩ := bind_eq_ok.1 valued
    obtain ⟨a, rfl, joins⟩ := Option.bind_eq_some_iff.1 (Except.ok.inj valued)
    obtain ⟨b, rfl, joined⟩ := Option.bind_eq_some_iff.1 joins
    have lengths : (literalText value).length = (literalText a).length + (literalText b).length := by
      rw [literalText_joinValues? joined, List.length_append]
    have head := ihLeft found
    have tail := ihRight known
    obtain ⟨opening, closing⟩ := parens
    simp only [← List.length_eq_zero_iff, Node.leaves_branch, Node.leavesAll_cons, Node.leavesAll_nil,
      shown_append, List.append_nil, List.length_append] at head tail ⊢
    omega
  | case5 => cases valued

theorem Mirrored.of_idle {place : Address → Address} {Rel : Survey → Survey → Prop} {step image : Step}
    (idle : step.IsIdle) (still : image.IsIdle) : Mirrored place Rel none step image := by
  intro context first second after inside related done
  rw [idle context first inside] at done
  obtain rfl := Except.ok.inj done
  exact ⟨second, still _ second (by simp [Context.moved, inside]), related⟩

theorem readText_nil (depth : Nat) : (readText depth []).IsIdle :=
  readText_idle 1 depth (by decide +kernel)

section

variable {root : Node} {place : Address → Address} {Rel : Survey → Survey → Prop}
  (mirror : Mirror root (fun _ _ => True) place Rel)

include mirror

/-- It makes no difference how deep a text may be read, if that is deeper than it is long. -/
theorem readText_mirrored {depth other : Nat} {text : List Char} (enough : text.length < depth)
    (more : text.length < other) : Mirrored place Rel none (readText depth text) (readText other text) := by
  induction depth generalizing other text with
  | zero => exact absurd enough (by omega)
  | succ depth ih =>
    obtain ⟨other, rfl⟩ : ∃ less, other = less + 1 := ⟨other - 1, by omega⟩
    intro context first second after inside related done
    rw [readText] at done ⊢
    split at done
    next module spelled =>
      refine stepOf_placed trivial mirror module.root (by simp) (fun path part found value valued => ?_)
        (by simp) (fun _ _ _ => ⟨trivial, fun _ _ _ _ => trivial, fun _ _ _ _ => trivial⟩) context first
        second after inside related done
      have parsed := (Module.parse?_of_read spelled).1
      have whole := Module.length_of_parse? parsed
      have within := @shown_sublist .bare _ _ (Node.sublist_leaves found)
      rw [String.toList_ofList] at whole
      rw [Module.leaves_root] at within
      rcases length_of_valueOf? valued with empty | less
      next =>
        rw [empty]
        exact .of_idle (readText_nil depth) (readText_nil other)
      next => exact ih (by omega) (by omega)
    next unparsable =>
      obtain rfl := Except.ok.inj done
      exact ⟨second, rfl, related⟩
    next => exact absurd done (by simp)

end

end Scope

end Graft
