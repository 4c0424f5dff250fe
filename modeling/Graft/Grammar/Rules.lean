import Graft.Grammar.Pattern

set_option autoImplicit false

/-!
The rules of expressions, tied together. Each layer of rules may use the layer below it, and a source
needs no more layers than it has tokens.
-/
namespace Graft.Grammar

/-- The rules of the language, for sources of at most so many tokens. -/
def rules : Nat → Rules
  | 0, _ => failure
  | fuel + 1, goal =>
    match goal with
    | .expression => expression (rules fuel)
    | .disjunction => disjunction (rules fuel)
    | .inversion => inversion (rules fuel)
    | .bitwiseOr => bitwiseOr (rules fuel)
    | .factor => factor (rules fuel)
    | .primary => primary (rules fuel)
    | .field => field (rules fuel)
    | .pattern => pattern (rules fuel)

end Graft.Grammar
