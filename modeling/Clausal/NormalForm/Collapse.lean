import Clausal.ClauseSet

set_option autoImplicit false

namespace Clausal.Formula

mutual

/-- What stands under nested conjunctions, from left to right. -/
def conjuncts : Formula → List Formula
  | .and parts => conjunctsAll parts
  | leaf => [leaf]

def conjunctsAll : List Formula → List Formula
  | [] => []
  | part :: rest => conjuncts part ++ conjunctsAll rest

end

mutual

def disjuncts : Formula → List Formula
  | .or parts => disjunctsAll parts
  | leaf => [leaf]

def disjunctsAll : List Formula → List Formula
  | [] => []
  | part :: rest => disjuncts part ++ disjunctsAll rest

end

theorem conjunctsAll_eq (parts : List Formula) :
    conjunctsAll parts = parts.flatMap conjuncts := by
  induction parts with
  | nil => rfl
  | cons part rest ih => rw [conjunctsAll, List.flatMap_cons, ih]

theorem disjunctsAll_eq (parts : List Formula) :
    disjunctsAll parts = parts.flatMap disjuncts := by
  induction parts with
  | nil => rfl
  | cons part rest ih => rw [disjunctsAll, List.flatMap_cons, ih]

theorem all_conjuncts (valuation : Valuation) (formula : Formula) :
    formula.conjuncts.all (evaluate valuation) = formula.evaluate valuation := by
  induction formula with
  | and parts ih =>
      rw [conjuncts, conjunctsAll_eq, evaluate_and]
      induction parts with
      | nil => rfl
      | cons part rest others => simp_all
  | _ => simp [conjuncts]

theorem any_disjuncts (valuation : Valuation) (formula : Formula) :
    formula.disjuncts.any (evaluate valuation) = formula.evaluate valuation := by
  induction formula with
  | or parts ih =>
      rw [disjuncts, disjunctsAll_eq, evaluate_or]
      induction parts with
      | nil => rfl
      | cons part rest others => simp_all
  | _ => simp [disjuncts]

/-- One conjunction of disjunctions, nested ones being spliced into their parents. -/
def flattened (formula : Formula) : Formula :=
  .and (formula.conjuncts.map fun conjunct => .or conjunct.disjuncts)

theorem evaluate_flattened (valuation : Valuation) (formula : Formula) :
    formula.flattened.evaluate valuation = formula.evaluate valuation := by
  rw [flattened, evaluate_and, List.all_map, ← all_conjuncts valuation formula]
  simp [Function.comp_def, any_disjuncts]

/-- The nearest disjunction above the parts of a node. -/
def disjunctionBelow (above : Option Formula) : Formula → Option Formula
  | .or parts => some (.or parts)
  | _ => above

/-- What keeps a node, below the given disjunction, from being part of a clause
set. The faults every pass refuses come first. -/
def collapseFault? (place : Option Formula × Formula) : Option Failure :=
  match place.2.fault? with
  | some cause => some (.malformed cause)
  | none =>
    match place with
    | (_, .not (.atom _)) => none
    | (_, .not body) => some (.uncollapsible (.negatedCompound (.not body)))
    | (some disjunction, .and _) => some (.uncollapsible (.undistributed disjunction))
    | (_, .condition antecedent consequent) =>
        some (.uncollapsible (.condition (.condition antecedent consequent)))
    | (_, .bicondition left right) => some (.uncollapsible (.bicondition (.bicondition left right)))
    | _ => none

/-- Refuses the first node which is out of place, a node coming before its parts. -/
def checkCollapsible (formula : Formula) : Except Failure Unit :=
  failWith ((formula.occurrences disjunctionBelow none).findSome? collapseFault?)

def collapseToClauseSet (formula : Formula) : Except Failure ClauseSet := do
  formula.checkCollapsible
  ClauseSet.ofFormula formula.flattened

def collapse (formula : Formula) : Except Failure Formula := do
  return (← formula.collapseToClauseSet).toFormula

end Clausal.Formula
