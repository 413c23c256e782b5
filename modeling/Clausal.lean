import Clausal.Clause.Basic
import Clausal.Clause.Resolvent
import Clausal.ClauseSet
import Clausal.Decision
import Clausal.Derivation
import Clausal.Failure
import Clausal.Formula.Basic
import Clausal.Formula.Fault
import Clausal.Formula.MapNodes
import Clausal.Formula.Occurrences
import Clausal.Formula.Text
import Clausal.Formula.Value
import Clausal.Literal
import Clausal.NormalForm.Arrows
import Clausal.NormalForm.Collapse
import Clausal.NormalForm.Pass
import Clausal.NormalForm.Polarity
import Clausal.NormalForm.Product
import Clausal.Ordered
import Clausal.Outcome
import Clausal.Proofs.Answers
import Clausal.Proofs.Clause.Clash
import Clausal.Proofs.Clause.Count
import Clausal.Proofs.Clause.Equality
import Clausal.Proofs.Clause.Model
import Clausal.Proofs.Clause.Resolution
import Clausal.Proofs.ClauseSet.Equality
import Clausal.Proofs.ClauseSet.Index
import Clausal.Proofs.ClauseSet.Offers
import Clausal.Proofs.Derivation.Graph
import Clausal.Proofs.Derivation.Origins
import Clausal.Proofs.Derivation.Search
import Clausal.Proofs.Formula.Atoms
import Clausal.Proofs.Formula.Readback
import Clausal.Proofs.Formula.Throughout
import Clausal.Proofs.Formula.TruthTable
import Clausal.Proofs.NormalForm.Canonical
import Clausal.Proofs.NormalForm.Collapsible
import Clausal.Proofs.NormalForm.Direct
import Clausal.Proofs.NormalForm.Product
import Clausal.Proofs.NormalForm.Reading
import Clausal.Proofs.NormalForm.Refusal
import Clausal.Proofs.NormalForm.Settled
import Clausal.Proofs.NormalForm.Stages
import Clausal.Proofs.NormalForm.Truth
import Clausal.Proofs.Resolve
import Clausal.Proofs.Satisfiability
import Clausal.Proofs.Saturation.Agreement
import Clausal.Proofs.Saturation.Ancestry
import Clausal.Proofs.Saturation.Bound
import Clausal.Proofs.Saturation.Exactness
import Clausal.Proofs.Saturation.Exhaustion
import Clausal.Proofs.Saturation.Growth
import Clausal.Proofs.Saturation.Interleaving
import Clausal.Proofs.Saturation.Invariant
import Clausal.Proofs.Saturation.Limits
import Clausal.Proofs.Saturation.Merge
import Clausal.Proofs.Saturation.Order
import Clausal.Proofs.Saturation.Overshoot
import Clausal.Proofs.Saturation.Repeats
import Clausal.Proofs.Saturation.Replay
import Clausal.Proofs.Saturation.Round
import Clausal.Proofs.Saturation.Scan
import Clausal.Proofs.Saturation.Sweep
import Clausal.Proofs.Saturation.Verdict
import Clausal.Proofs.Saturation.Workers
import Clausal.Proofs.Tree.Grammar
import Clausal.Saturation.Engine
import Clausal.Saturation.Scan
import Clausal.Saturation.Workers
import Clausal.Tree
import Clausal.Valuation
