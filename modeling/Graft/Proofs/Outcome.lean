set_option autoImplicit false

/-!
Outcomes that are results or errors. A computation in steps has a result if and only if each of its steps
has one, so what it did is read off its result step by step.
-/
namespace Graft

variable {E A B : Type}

theorem eq_ok_of_toOption {result : Except E A} {a : A} (found : result.toOption = some a) :
    result = .ok a := by
  cases result with
  | error e => exact absurd found (by simp [Except.toOption])
  | ok b => exact congrArg Except.ok (Option.some.inj found)

theorem bind_eq_ok {first : Except E A} {next : A → Except E B} {result : B} :
    first >>= next = .ok result ↔ ∃ between, first = .ok between ∧ next between = .ok result := by
  cases first <;> simp [Bind.bind, Except.bind]

theorem map_eq_ok {first : Except E A} {f : A → B} {result : B} :
    first.map f = .ok result ↔ ∃ a, first = .ok a ∧ f a = result := by
  cases first <;> simp [Except.map]

end Graft
