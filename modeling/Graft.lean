import Graft.Definition
import Graft.Proofs.Callee
import Graft.Proofs.Console
import Graft.Proofs.Definition
import Graft.Proofs.Grafting.Again
import Graft.Proofs.Grafting.Erasure
import Graft.Proofs.Grafting.Formatted
import Graft.Proofs.Grafting.Freshness
import Graft.Proofs.Grafting.Grammatical
import Graft.Proofs.Grafting.Idempotence
import Graft.Proofs.Grafting.Leading
import Graft.Proofs.Grafting.Opening
import Graft.Proofs.Grafting.Order
import Graft.Proofs.Grafting.Report
import Graft.Proofs.Grafting.Statements
import Graft.Proofs.Grafting.Survey
import Graft.Proofs.Grafting.Synthesis
import Graft.Proofs.Grafting.Tally
import Graft.Proofs.Grafting.Untouched
import Graft.Proofs.InputType.Scan
import Graft.Proofs.InputType.Soundness
import Graft.Proofs.Naming.Separation
import Graft.Proofs.Positions
import Graft.Proofs.Registry.Interleaving
import Graft.Proofs.Registry.Layout
import Graft.Proofs.Registry.Rereading
import Graft.Proofs.Registry.Reuse
import Graft.Proofs.Registry.Session
import Graft.Proofs.Scope.Binders
import Graft.Proofs.Scope.Growth
import Graft.Proofs.Scope.Insertion
import Graft.Proofs.Scope.Locals
import Graft.Proofs.Scope.Own
import Graft.Proofs.Scope.Sites
import Graft.Proofs.Settings.Entries
import Graft.Proofs.Tree.Chain
import Graft.Proofs.Tree.Splice
import Graft.Proofs.Tree.Walk
