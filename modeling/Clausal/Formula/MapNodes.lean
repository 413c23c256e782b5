import Clausal.Formula.Value

set_option autoImplicit false

namespace Clausal.Formula

mutual

/-- Applies a rule once at every node, to the node with its parts already changed. -/
def mapNodes (rule : Formula → Formula) : Formula → Formula
  | .atom name => rule (.atom name)
  | .not body => rule (.not (mapNodes rule body))
  | .and conjuncts => rule (.and (mapNodesAll rule conjuncts))
  | .or disjuncts => rule (.or (mapNodesAll rule disjuncts))
  | .condition antecedent consequent =>
      rule (.condition (mapNodes rule antecedent) (mapNodes rule consequent))
  | .bicondition left right => rule (.bicondition (mapNodes rule left) (mapNodes rule right))

def mapNodesAll (rule : Formula → Formula) : List Formula → List Formula
  | [] => []
  | part :: rest => mapNodes rule part :: mapNodesAll rule rest

end

theorem mapNodesAll_eq (rule : Formula → Formula) (parts : List Formula) :
    mapNodesAll rule parts = parts.map (mapNodes rule) := by
  induction parts with
  | nil => rfl
  | cons part rest ih => rw [mapNodesAll, List.map_cons, ih]

@[simp] theorem mapNodes_and (rule : Formula → Formula) (conjuncts : List Formula) :
    (and conjuncts).mapNodes rule = rule (.and (conjuncts.map (mapNodes rule))) := by
  rw [mapNodes, mapNodesAll_eq]

@[simp] theorem mapNodes_or (rule : Formula → Formula) (disjuncts : List Formula) :
    (or disjuncts).mapNodes rule = rule (.or (disjuncts.map (mapNodes rule))) := by
  rw [mapNodes, mapNodesAll_eq]

theorem evaluate_mapNodes (rule : Formula → Formula) (valuation : Valuation)
    (keeps : ∀ node, (rule node).evaluate valuation = node.evaluate valuation)
    (formula : Formula) :
    (formula.mapNodes rule).evaluate valuation = formula.evaluate valuation := by
  induction formula with
  | atom name => rw [mapNodes, keeps]
  | not body ih => rw [mapNodes, keeps, evaluate, evaluate, ih]
  | and conjuncts ih =>
      rw [mapNodes_and, keeps, evaluate_and_map valuation _ conjuncts ih]
  | or disjuncts ih =>
      rw [mapNodes_or, keeps, evaluate_or_map valuation _ disjuncts ih]
  | condition antecedent consequent first second =>
      rw [mapNodes, keeps, evaluate, evaluate, first, second]
  | bicondition left right first second =>
      rw [mapNodes, keeps, evaluate, evaluate, first, second]

end Clausal.Formula
