import Graft.Fresh
import Graft.Proofs.Identifier
import Mathlib.Data.Finset.Card
import Mathlib.Data.Nat.Find

set_option autoImplicit false

/-!
A fresh name is the first spelling that is not taken. There is one, as no two spellings are the same, and it
is an identifier if the name is one.
-/
namespace Graft.Fresh

theorem spellsIdentifier_underscore {text : List Char} (valid : spellsIdentifier text = true) :
    spellsIdentifier ('_' :: text) = true := by
  simp only [spellsIdentifier, Bool.and_eq_true, List.all_eq_true]
  exact ⟨by decide, fun c mem => isPart_of_mem valid mem⟩

theorem isIdentifier_candidate {name : String} (valid : isIdentifier name = true) (n : Nat) :
    isIdentifier (candidate name n) = true := by
  have lead := spellsIdentifier_underscore valid
  match n with
  | 0 => exact valid
  | 1 => simpa [isIdentifier, candidate] using lead
  | n + 2 =>
    have digits : ∀ c ∈ Nat.toDigits 10 (n + 2), Text.Letter.isPart c = true := fun c mem =>
      isPart_of_isAsciiPart (by
        simp [isAsciiPart, Char.isAlphanum, Nat.isDigit_of_mem_toDigits (by decide) (by decide) mem])
    simpa [isIdentifier, candidate] using spellsIdentifier_append lead digits

theorem isKeyword_candidate {name : String} (word : isKeyword name = false) (n : Nat) :
    isKeyword (candidate name n) = false := by
  -- No keyword begins with an underscore, and every candidate but the name itself does.
  have lead {text : String} (first : text.toList.head? = some '_') : isKeyword text = false := by
    have apart : ∀ keyword ∈ keywords, keyword.toList.head? ≠ some '_' := by decide
    simp only [isKeyword, List.contains_eq_mem, decide_eq_false_iff_not]
    exact fun mem => apart text mem first
  rcases n with _ | _ | n
  next => exact word
  next => exact lead (by simp [candidate])
  next => exact lead (by simp [candidate])

theorem candidate_injective {name : String} {m n : Nat} (same : candidate name m = candidate name n) :
    m = n := by
  have texts := congrArg String.toList same
  match m, n with
  | 0, 0 => rfl
  | 1, 1 => rfl
  | 0, 1 | 0, n + 2 | 1, 0 | m + 2, 0 =>
    have lengths := congrArg List.length texts
    simp [candidate] at lengths
    try omega
  | 1, n + 2 | m + 2, 1 =>
    have lengths := congrArg List.length texts
    simp [candidate] at lengths
  | m + 2, n + 2 =>
    have digits : Nat.toDigits 10 (m + 2) = Nat.toDigits 10 (n + 2) := by
      simpa [candidate] using texts
    have values := congrArg (Nat.ofDigitChars 10 · 0) digits
    simpa [Nat.ofDigitChars_toDigits] using values

/-- The first free spelling from the place `n` on is `k` places behind it. -/
def IsFirstFree (taken : List String) (name : String) (n k : Nat) : Prop :=
  candidate name (n + k) ∉ taken ∧ ∀ i < k, candidate name (n + i) ∈ taken

theorem isFirstFree_zero {taken : List String} {name : String} {n : Nat} :
    IsFirstFree taken name n 0 ↔ candidate name n ∉ taken := by
  simp [IsFirstFree]

theorem isFirstFree_succ {taken : List String} {name : String} {n k : Nat} :
    IsFirstFree taken name n (k + 1) ↔ candidate name n ∈ taken ∧ IsFirstFree taken name (n + 1) k := by
  have shift (i : Nat) : n + (i + 1) = n + 1 + i := by omega
  constructor
  next =>
    rintro ⟨free, before⟩
    refine ⟨before 0 (by omega), shift k ▸ free, fun i less => ?_⟩
    exact shift i ▸ before (i + 1) (by omega)
  next =>
    rintro ⟨here, free, before⟩
    refine ⟨(shift k).symm ▸ free, fun i less => ?_⟩
    cases i with
    | zero => exact here
    | succ i => exact (shift i).symm ▸ before i (by omega)

/-- Among one spelling more than there are taken names, one is free. -/
theorem exists_isFirstFree (taken : List String) (name : String) :
    ∃ k ≤ taken.toFinset.card, IsFirstFree taken name 0 k := by
  have some : ∃ k, k ≤ taken.toFinset.card ∧ candidate name k ∉ taken := by
    let spellings := (Finset.range (taken.toFinset.card + 1)).image (candidate name)
    have more : taken.toFinset.card < spellings.card := by
      rw [Finset.card_image_of_injective _ fun _ _ => candidate_injective, Finset.card_range]
      exact Nat.lt_succ_self _
    obtain ⟨spelling, made, free⟩ := Finset.exists_mem_notMem_of_card_lt_card more
    obtain ⟨k, place, rfl⟩ := Finset.mem_image.1 made
    exact ⟨k, Nat.lt_succ_iff.1 (Finset.mem_range.1 place), fun mem => free (List.mem_toFinset.2 mem)⟩
  refine ⟨Nat.find some, (Nat.find_spec some).1, ?_, fun i less => ?_⟩
  next => simpa using (Nat.find_spec some).2
  next =>
    have early := Nat.find_min some less
    simp only [not_and, not_not] at early
    simpa using early (Nat.le_of_lt (Nat.lt_of_lt_of_le less (Nat.find_spec some).1))

/-- A search that goes far enough finds the first free spelling. -/
theorem search_eq {taken : List String} {name : String} {fuel n k : Nat} (first : IsFirstFree taken name n k)
    (enough : k ≤ fuel) : search taken name fuel n = candidate name (n + k) := by
  induction k generalizing fuel n with
  | zero =>
    cases fuel with
    | zero => rfl
    | succ fuel =>
      rw [search, if_neg (by simpa using isFirstFree_zero.1 first)]
      rfl
  | succ k ih =>
    obtain ⟨fuel, rfl⟩ := Nat.exists_eq_add_one_of_ne_zero (Nat.ne_zero_of_lt enough)
    obtain ⟨here, later⟩ := isFirstFree_succ.1 first
    rw [search, if_pos (by simpa using here), ih later (by omega), Nat.add_assoc, Nat.add_comm 1]

theorem exists_choose_eq (taken : List String) (name : String) :
    ∃ k ≤ taken.toFinset.card, IsFirstFree taken name 0 k ∧ choose taken name = candidate name k := by
  obtain ⟨k, bound, first⟩ := exists_isFirstFree taken name
  refine ⟨k, bound, first, ?_⟩
  rw [choose, search_eq first (bound.trans taken.toFinset_card_le), Nat.zero_add]

theorem choose_eq_candidate (taken : List String) (name : String) :
    ∃ n, choose taken name = candidate name n :=
  (exists_choose_eq taken name).imp fun _ found => found.2.2

theorem choose_not_mem (taken : List String) (name : String) : choose taken name ∉ taken := by
  obtain ⟨k, -, first, same⟩ := exists_choose_eq taken name
  simpa [same] using first.1

theorem isIdentifier_choose (taken : List String) {name : String} (valid : isIdentifier name = true) :
    isIdentifier (choose taken name) = true := by
  obtain ⟨n, same⟩ := choose_eq_candidate taken name
  exact same ▸ isIdentifier_candidate valid n

theorem isKeyword_choose (taken : List String) {name : String} (word : isKeyword name = false) :
    isKeyword (choose taken name) = false := by
  obtain ⟨n, same⟩ := choose_eq_candidate taken name
  exact same ▸ isKeyword_candidate word n

/-- The run of a search that stands at the place `n`: how many spellings it looks at, and the one it ends on.
Nothing bounds it but the names that are taken. -/
inductive Ends (taken : List String) (name : String) : Nat → Nat → String → Prop
  | free {n : Nat} : candidate name n ∉ taken → Ends taken name n 1 (candidate name n)
  | next {n steps : Nat} {found : String} : candidate name n ∈ taken →
      Ends taken name (n + 1) steps found → Ends taken name n (steps + 1) found

theorem ends_iff {taken : List String} {name : String} {n steps : Nat} {found : String} :
    Ends taken name n steps found ↔
      ∃ k, IsFirstFree taken name n k ∧ steps = k + 1 ∧ found = candidate name (n + k) := by
  constructor
  next =>
    intro ends
    induction ends with
    | free free => exact ⟨0, isFirstFree_zero.2 free, rfl, rfl⟩
    | @next n _ _ here _ ih =>
      obtain ⟨k, first, rfl, rfl⟩ := ih
      exact ⟨k + 1, isFirstFree_succ.2 ⟨here, first⟩, rfl, by rw [Nat.add_assoc, Nat.add_comm 1]⟩
  next =>
    rintro ⟨k, first, rfl, rfl⟩
    induction k generalizing n with
    | zero => exact .free (isFirstFree_zero.1 first)
    | succ k ih =>
      obtain ⟨here, later⟩ := isFirstFree_succ.1 first
      have rest := ih later
      rw [Nat.add_assoc, Nat.add_comm 1] at rest
      exact .next here rest

theorem IsFirstFree.unique {taken : List String} {name : String} {n j k : Nat}
    (one : IsFirstFree taken name n j) (other : IsFirstFree taken name n k) : j = k := by
  rcases Nat.lt_trichotomy j k with less | same | less
  next => exact absurd (other.2 j less) one.1
  next => exact same
  next => exact absurd (one.2 k less) other.1

/-- The search for a fresh name ends, and it ends on the first free spelling, after it has looked at no more
than one spelling more than there are taken names. No spelling comes twice, and all are identifiers if the
name is one. -/
theorem choose_first_free (taken : List String) (name : String) :
    ∃ k ≤ taken.toFinset.card, candidate name k ∉ taken ∧ (∀ i < k, candidate name i ∈ taken) ∧
      choose taken name = candidate name k ∧
      (∀ steps found, Ends taken name 0 steps found ↔ steps = k + 1 ∧ found = choose taken name) ∧
      (∀ m n, candidate name m = candidate name n → m = n) ∧
      (isIdentifier name = true → ∀ n, isIdentifier (candidate name n) = true) := by
  obtain ⟨k, bound, first, same⟩ := exists_choose_eq taken name
  refine ⟨k, bound, by simpa using first.1, by simpa using first.2, same, fun steps found => ?_,
    fun _ _ => candidate_injective, isIdentifier_candidate⟩
  rw [ends_iff, same]
  constructor
  next =>
    rintro ⟨other, again, rfl, rfl⟩
    obtain rfl := again.unique first
    exact ⟨rfl, by rw [Nat.zero_add]⟩
  next =>
    rintro ⟨rfl, rfl⟩
    exact ⟨k, first, rfl, by rw [Nat.zero_add]⟩

end Graft.Fresh
