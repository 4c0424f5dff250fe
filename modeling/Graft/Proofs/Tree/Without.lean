import Graft.Tree.Walk

set_option autoImplicit false

/-!
Trees without some of their parts. What is left of two trees is compared place by place.
-/
namespace Graft

namespace Node

/-- A tree without the parts at some addresses. -/
def without (gone : List Address) (address : Address) : Node → Node
  | .leaf l => .leaf l
  | .name parens id => .name parens id
  | .branch kind parens children => .branch kind parens (withoutFrom gone address 0 children)
where
  withoutFrom (gone : List Address) (address : Address) : Nat → List Node → List Node
    | _, [] => []
    | index, node :: rest =>
      if address ++ [index] ∈ gone then withoutFrom gone address (index + 1) rest
      else node.without gone (address ++ [index]) :: withoutFrom gone address (index + 1) rest

section

variable {gone other : List Address} {address place : Address}

theorem withoutFrom_append (index : Nat) (first rest : List Node) :
    without.withoutFrom gone address index (first ++ rest) =
      without.withoutFrom gone address index first ++
        without.withoutFrom gone address (index + first.length) rest := by
  induction first generalizing index with
  | nil => rfl
  | cons node first ih =>
    have length : index + (node :: first).length = index + 1 + first.length := by
      rw [List.length_cons, Nat.add_assoc, Nat.add_comm first.length]
    rw [List.cons_append, without.withoutFrom, without.withoutFrom, ih, length]
    split <;> rfl

theorem withoutFrom_of_gone {index : Nat} {nodes : List Node}
    (all : ∀ i < nodes.length, address ++ [index + i] ∈ gone) :
    without.withoutFrom gone address index nodes = [] := by
  induction nodes generalizing index with
  | nil => rfl
  | cons node rest ih =>
    have here : address ++ [index] ∈ gone := all 0 (by simp)
    rw [without.withoutFrom, if_pos here]
    refine ih fun i bound => ?_
    have next := all (i + 1) (by simpa using bound)
    rwa [Nat.add_comm i, ← Nat.add_assoc] at next

theorem withoutFrom_congr {i j : Nat} {news olds : List Node} (length : news.length = olds.length)
    (marks : ∀ k < olds.length, address ++ [i + k] ∈ gone ↔ place ++ [j + k] ∈ other)
    (same : ∀ (k : Nat) new old, news[k]? = some new → olds[k]? = some old →
      new.without gone (address ++ [i + k]) = old.without other (place ++ [j + k])) :
    without.withoutFrom gone address i news = without.withoutFrom other place j olds := by
  induction olds generalizing i j news with
  | nil =>
    obtain rfl := List.length_eq_zero_iff.1 length
    rfl
  | cons old olds ih =>
    obtain ⟨new, news, rfl⟩ := List.exists_cons_of_length_eq_add_one length
    have rest : without.withoutFrom gone address (i + 1) news = without.withoutFrom other place (j + 1) olds := by
      refine ih (by simpa using length) (fun k bound => ?_) fun k new old here there => ?_
      next => simpa [Nat.add_assoc, Nat.add_comm 1] using marks (k + 1) (by simpa using bound)
      next => simpa [Nat.add_assoc, Nat.add_comm 1] using same (k + 1) new old here there
    have mark : address ++ [i] ∈ gone ↔ place ++ [j] ∈ other := marks 0 (by simp)
    have head : new.without gone (address ++ [i]) = old.without other (place ++ [j]) := same 0 new old rfl rfl
    rw [without.withoutFrom, without.withoutFrom, rest, head]
    simp only [mark]

theorem withoutFrom_of_cut {cut count : Nat} {news olds : List Node}
    (length : news.length = olds.length + count) (bound : cut ≤ olds.length)
    (added : ∀ k, cut ≤ k → k < cut + count → address ++ [k] ∈ gone)
    (marks : ∀ k < olds.length,
      address ++ [if k < cut then k else k + count] ∈ gone ↔ place ++ [k] ∈ other)
    (same : ∀ (k : Nat) new old, news[if k < cut then k else k + count]? = some new → olds[k]? = some old →
      new.without gone (address ++ [if k < cut then k else k + count]) =
        old.without other (place ++ [k])) :
    without.withoutFrom gone address 0 news = without.withoutFrom other place 0 olds := by
  -- What stands before and behind the new parts is compared with what stood there.
  have split : news = news.take cut ++ ((news.drop cut).take count ++ news.drop (cut + count)) := by
    rw [← List.drop_drop, List.take_append_drop, List.take_append_drop]
  have first : (news.take cut).length = cut := by simp; omega
  have between : ((news.drop cut).take count).length = count := by simp; omega
  have nothing : without.withoutFrom gone address (0 + cut) ((news.drop cut).take count) = [] :=
    withoutFrom_of_gone fun i less => added _ (by omega) (by omega)
  rw [split, withoutFrom_append, withoutFrom_append, first, between,
    nothing,
    List.nil_append, ← List.take_append_drop cut olds, withoutFrom_append, List.length_take_of_le bound]
  congr 1
  next =>
    refine withoutFrom_congr (by simp; omega) (fun k less => ?_) fun k new old here there => ?_
    next =>
      have early : k < cut := by simp at less; omega
      simpa [early] using marks k (by omega)
    next =>
      have early : k < cut := by
        have less := (List.getElem?_eq_some_iff.1 here).1
        simp at less
        omega
      rw [List.getElem?_take_of_lt early] at here there
      simpa [early] using same k new old (by rwa [if_pos early]) there
  next =>
    refine withoutFrom_congr (by simp; omega) (fun k less => ?_) fun k new old here there => ?_
    next =>
      have late : ¬ cut + k < cut := by omega
      have inside : cut + k < olds.length := by simp at less; omega
      simpa [late, Nat.add_right_comm] using marks (cut + k) inside
    next =>
      have late : ¬ cut + k < cut := by omega
      rw [List.getElem?_drop] at here there
      simpa [late, Nat.add_right_comm] using same (cut + k) new old (by rwa [if_neg late, Nat.add_right_comm]) there

end

end Node

end Graft
