import Graft.Module
import Graft.Proofs.Grammar.Block

set_option autoImplicit false

/-!
Every statement of a module that can be read has what statements inherit; so the module is well formed.
-/
namespace Graft.Module

def wellFormed (module : Module) : Bool := module.body.all Node.wellFormed

theorem wellFormed_iff (module : Module) :
    module.wellFormed = true ↔ ∀ node ∈ module.body, node.wellFormed = true := by
  simp [wellFormed]

section

variable {Holds : Node → Prop} (inherits : Grammar.Inherits Holds)

include inherits

theorem root_inherits {module : Module} (each : ∀ node ∈ module.body, Holds node) : Holds module.root := by
  refine inherits.free rfl ?_
  simpa [or_imp, forall_and, inherits.glue] using each

theorem body_inherits_of_ofLines? {lineEnd : String} {finalBreak : Bool} {source : Source.Lines}
    {module : Module} (read : ofLines? lineEnd finalBreak source = some module) :
    ∀ node ∈ module.body, Holds node := by
  simp only [ofLines?, Option.bind_eq_bind, Option.bind_eq_some_iff] at read
  obtain ⟨⟨body, rest⟩, run, ends⟩ := read
  have each := Grammar.statements_yields inherits _ _ _ _ _ run
  split at ends
  next => exact absurd ends (by simp)
  next =>
    split at ends
    next => exact Option.some.inj ends ▸ fun node mem => absurd mem (by simp)
    next => exact Option.some.inj ends ▸ each

theorem body_inherits {source : String} {module : Module} (parsed : parse? source = some module) :
    ∀ node ∈ module.body, Holds node := by
  simp only [parse?, Option.bind_eq_some_iff] at parsed
  obtain ⟨lines, -, read⟩ := parsed
  exact body_inherits_of_ofLines? inherits read

end

theorem wellFormed_root {module : Module} (wellFormed : module.wellFormed = true) :
    module.root.wellFormed = true :=
  root_inherits Grammar.wellFormed_inherits ((wellFormed_iff module).1 wellFormed)

theorem wellFormed_of_parse? {source : String} {module : Module}
    (parsed : parse? source = some module) : module.wellFormed = true :=
  (wellFormed_iff module).2 (body_inherits Grammar.wellFormed_inherits parsed)

theorem isTidy_of_parse? {source : String} {module : Module} (parsed : parse? source = some module) :
    module.root.IsTidy :=
  root_inherits Grammar.isTidy_inherits (body_inherits Grammar.isTidy_inherits parsed)

theorem parse?_of_read {source : String} {module : Module} (read : read source = .ok module) :
    parse? source = some module ∧ Node.flaw?.flawAmong module.body = none := by
  unfold Module.read at read
  split at read
  next => exact absurd read (by simp)
  next parsed parses =>
    split at read
    next => exact absurd read (by simp)
    next clean => exact Except.ok.inj read ▸ ⟨parses, clean⟩

theorem wellFormed_of_read {source : String} {module : Module} (read : read source = .ok module) :
    module.wellFormed = true :=
  wellFormed_of_parse? (parse?_of_read read).1

end Graft.Module
