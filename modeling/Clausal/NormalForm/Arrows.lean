import Clausal.Formula.Fault
import Clausal.Formula.MapNodes

set_option autoImplicit false

namespace Clausal.Formula

/-- A bicondition is the conjunction of the condition and its converse. -/
def splitBicondition : Formula → Formula
  | .bicondition left right => .and [.condition left right, .condition right left]
  | node => node

/-- A condition holds by its consequent or for want of its antecedent, in this order. -/
def openCondition : Formula → Formula
  | .condition antecedent consequent => .or [consequent, .not antecedent]
  | node => node

theorem evaluate_splitBicondition (valuation : Valuation) (node : Formula) :
    node.splitBicondition.evaluate valuation = node.evaluate valuation := by
  cases node with
  | bicondition left right =>
      simp only [splitBicondition, evaluate, evaluateAll]
      cases left.evaluate valuation <;> cases right.evaluate valuation <;> rfl
  | _ => rfl

theorem evaluate_openCondition (valuation : Valuation) (node : Formula) :
    node.openCondition.evaluate valuation = node.evaluate valuation := by
  cases node with
  | condition antecedent consequent =>
      simp only [openCondition, evaluate, evaluateAny]
      cases antecedent.evaluate valuation <;> cases consequent.evaluate valuation <;> rfl
  | _ => rfl

def eliminateBiconditions (formula : Formula) : Except Malformed Formula := do
  formula.check
  return formula.mapNodes splitBicondition

def eliminateConditions (formula : Formula) : Except Malformed Formula := do
  formula.check
  return formula.mapNodes openCondition

end Clausal.Formula
