import Graft.Grammar.Block

set_option autoImplicit false

/-!
What readers give. `Yields reader P` says that every result of a reader is good, whatever it
reads. A rule for each way to put readers together carries this from the parts to the whole.
-/
namespace Graft.Grammar

def Yields {S A : Type} (reader : StateT S Option A) (P : A → Prop) : Prop :=
  ∀ state result rest, reader.run state = some (result, rest) → P result

namespace Yields

variable {S A B : Type} {P : A → Prop} {Q : B → Prop}

theorem pure {result : A} (holds : P result) :
    Yields (pure result : StateT S Option A) P := by
  intro state other rest run
  simp only [StateT.run_pure, Option.pure_def, Option.some.injEq, Prod.mk.injEq] at run
  exact run.1 ▸ holds

theorem bind {first : StateT S Option A} {next : A → StateT S Option B}
    (head : Yields first P) (tail : ∀ result, P result → Yields (next result) Q) :
    Yields (first >>= next) Q := by
  intro state result rest run
  simp only [StateT.run_bind, Option.bind_eq_bind, Option.bind_eq_some_iff] at run
  obtain ⟨⟨middle, between⟩, before, after⟩ := run
  exact tail middle (head _ _ _ before) _ _ _ after

theorem step {first : StateT S Option A} {next : A → StateT S Option B}
    (tail : ∀ result, Yields (next result) Q) : Yields (first >>= next) Q :=
  bind (P := fun _ => True) (fun _ _ _ _ => trivial) fun result _ => tail result

theorem failure : Yields (failure : StateT S Option A) P := by
  intro state result rest run
  exact absurd (show none = some (result, rest) from run) (by simp)

theorem ite {condition : Prop} [Decidable condition] {yes no : StateT S Option A}
    (holds : condition → Yields yes P) (fails : ¬ condition → Yields no P) :
    Yields (if condition then yes else no) P := by
  split
  next h => exact holds h
  next h => exact fails h

theorem run_of_orElse {first second : StateT S Option A} {state rest : S} {result : A}
    (run : (first <|> second).run state = some (result, rest)) :
    first.run state = some (result, rest) ∨ second.run state = some (result, rest) := by
  change (first state <|> second state) = some (result, rest) at run
  cases tried : first state with
  | none => exact .inr (by simpa [StateT.run, tried] using run)
  | some found => exact .inl (by simpa [StateT.run, tried] using run)

theorem orElse {first second : StateT S Option A} (left : Yields first P)
    (right : Yields second P) : Yields (first <|> second) P := by
  intro state result rest run
  exact (run_of_orElse run).elim (left _ _ _) (right _ _ _)

theorem imp {reader : StateT S Option A} {weaker : A → Prop} (holds : Yields reader P)
    (implies : ∀ result, P result → weaker result) : Yields reader weaker :=
  fun state result rest run => implies result (holds state result rest run)

theorem and {reader : StateT S Option A} {other : A → Prop} (left : Yields reader P)
    (right : Yields reader other) : Yields reader fun result => P result ∧ other result :=
  fun state result rest run => ⟨left state result rest run, right state result rest run⟩

theorem map {reader : StateT S Option A} {change : A → B} (holds : Yields reader P)
    (implies : ∀ result, P result → Q (change result)) : Yields (change <$> reader) Q := by
  rw [map_eq_pure_bind]
  exact holds.bind fun result h => .pure (implies result h)

theorem optional {reader : StateT S Option A} (holds : Yields reader P) :
    Yields (optional reader) fun found => ∀ result ∈ found, P result := by
  refine orElse (map holds fun result h => ?_) (.pure ?_)
  next => simpa using h
  next => simp

end Yields

theorem Yields.many {A : Type} {item : Reader A} {P : A → Prop} (holds : Yields item P) :
    Yields (Reader.many item) fun found => ∀ result ∈ found, P result := by
  have go (fuel : Nat) : Yields (Reader.many.go item fuel) fun found => ∀ result ∈ found, P result := by
    induction fuel with
    | zero => exact .pure (by simp)
    | succ fuel ih =>
      unfold Reader.many.go
      refine .step fun before => .bind (optional holds) fun found first => ?_
      cases found with
      | none => exact .pure (by simp)
      | some result =>
        have here : P result := first result rfl
        refine .step fun after => .ite (fun _ => ?_) fun _ => .pure (by simpa using here)
        exact .bind ih fun others later => .pure (by simpa [here] using later)
  exact .step fun _ => go _

theorem Yields.ofOption {A : Type} {P : A → Prop} {found : Option A}
    (holds : ∀ result, found = some result → P result) : Yields (Script.ofOption found) P := by
  cases found with
  | none => exact .failure
  | some result => exact .pure (holds result rfl)

theorem Yields.whole {A : Type} {P : A → Prop} {reader : Reader A} (holds : Yields reader P)
    {tokens : List Source.Token} {result : A} (read : Reader.whole reader tokens = some result) :
    P result := by
  simp only [Reader.whole, Option.bind_eq_bind, Option.bind_eq_some_iff] at read
  obtain ⟨⟨found, rest⟩, run, ends⟩ := read
  split at ends
  next => exact Option.some.inj ends ▸ holds _ _ _ run
  next => exact absurd ends (by simp)

end Graft.Grammar
