import Clausal.NormalForm.Arrows
import Clausal.NormalForm.Collapse
import Clausal.NormalForm.Polarity
import Clausal.NormalForm.Product

set_option autoImplicit false

namespace Clausal

inductive Pass where
  | biconditions
  | conditions
  | negations
  | distribution
  | collapse
  deriving DecidableEq

namespace Pass

def all : List Pass :=
  [.biconditions, .conditions, .negations, .distribution, .collapse]

def name : Pass → String
  | .biconditions => "eliminate_biconditions"
  | .conditions => "eliminate_conditions"
  | .negations => "push_negations_inward"
  | .distribution => "distribute_or_over_and"
  | .collapse => "collapse"

def next : Pass → Option Pass
  | .biconditions => some .conditions
  | .conditions => some .negations
  | .negations => some .distribution
  | .distribution => some .collapse
  | .collapse => none

def apply (formula : Formula) : Pass → Except Failure Formula
  | .biconditions => formula.eliminateBiconditions
  | .conditions => formula.eliminateConditions
  | .negations => formula.pushNegations
  | .distribution => formula.distribute
  | .collapse => formula.collapse

end Pass

namespace Formula

/-- The passes before the last, after which nothing stands in the way of a clause set. -/
def distributed (formula : Formula) : Except Malformed Formula := do
  (← (← (← formula.eliminateBiconditions).eliminateConditions).pushNegations).distribute

def clauseSet (formula : Formula) : Except Failure ClauseSet := do
  let distributed ← formula.distributed
  distributed.collapseToClauseSet

def normalForm (formula : Formula) : Except Failure Formula := do
  return (← formula.clauseSet).toFormula

theorem normalForm_eq_passes (formula : Formula) :
    formula.normalForm = Pass.all.foldlM Pass.apply formula := by
  simp only [normalForm, clauseSet, distributed, Pass.all, List.foldlM, Pass.apply, collapse]
  cases formula.eliminateBiconditions with
  | error cause => rfl
  | ok first =>
      simp only [ok_bind, lift_ok]
      cases first.eliminateConditions with
      | error cause => rfl
      | ok second =>
          simp only [ok_bind, lift_ok]
          cases second.pushNegations with
          | error cause => rfl
          | ok third =>
              simp only [ok_bind, lift_ok]
              cases third.distribute with
              | error cause => rfl
              | ok last => simp only [ok_bind, lift_ok, bind_pure]

end Formula
end Clausal
