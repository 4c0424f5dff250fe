set_option autoImplicit false

/-!
Fresh names: the first of a name's spellings that is not taken.
-/
namespace Graft.Fresh

/-- The spellings of a name: itself, then with an underscore in front, then numbered from 2. -/
def candidate (name : String) : Nat → String
  | 0 => name
  | 1 => "_" ++ name
  | n + 2 => "_" ++ name ++ Nat.repr (n + 2)

/-- The first free spelling from the place `n` on, with at most `fuel` taken ones before it. -/
def search (taken : List String) (name : String) : Nat → Nat → String
  | 0, n => candidate name n
  | fuel + 1, n =>
    if taken.contains (candidate name n) then search taken name fuel (n + 1)
    else candidate name n

def choose (taken : List String) (name : String) : String :=
  search taken name taken.length 0

end Graft.Fresh
