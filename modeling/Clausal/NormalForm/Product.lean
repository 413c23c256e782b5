import Clausal.Formula.Fault
import Clausal.Formula.MapNodes

set_option autoImplicit false

namespace Clausal.Formula

mutual

/-- Applies a change to what stands under nested conjunctions, keeping these. -/
def overConjuncts (change : Formula → Formula) : Formula → Formula
  | .and conjuncts => .and (overConjunctsAll change conjuncts)
  | leaf => change leaf

def overConjunctsAll (change : Formula → Formula) : List Formula → List Formula
  | [] => []
  | part :: rest => overConjuncts change part :: overConjunctsAll change rest

end

theorem overConjunctsAll_eq (change : Formula → Formula) (parts : List Formula) :
    overConjunctsAll change parts = parts.map (overConjuncts change) := by
  induction parts with
  | nil => rfl
  | cons part rest ih => rw [overConjunctsAll, List.map_cons, ih]

/-- Conjuncts which all have a disjunct in common can give it up to their conjunction. -/
theorem evaluate_overConjuncts (valuation : Valuation) (change : Formula → Formula)
    (held : Bool)
    (adds : ∀ leaf, (change leaf).evaluate valuation = (held || leaf.evaluate valuation))
    (formula : Formula) :
    (formula.overConjuncts change).evaluate valuation = (held || formula.evaluate valuation) := by
  induction formula with
  | and conjuncts ih =>
      rw [overConjuncts, overConjunctsAll_eq]
      induction conjuncts with
      | nil => simp
      | cons part rest others =>
          have first := ih part List.mem_cons_self
          have remaining := others fun part member => ih part (List.mem_cons_of_mem _ member)
          cases held <;> simp_all
  | _ => exact adds _

/-- The disjunction of the chosen parts and the rest, in order, with each
conjunction of the rest spread in its place. The first varies slowest. -/
def spread : List Formula → List Formula → Formula
  | chosen, [] => .or chosen
  | chosen, disjunct :: rest => disjunct.overConjuncts fun leaf => spread (chosen ++ [leaf]) rest

theorem evaluate_spread (valuation : Valuation) (chosen rest : List Formula) :
    (spread chosen rest).evaluate valuation = (or (chosen ++ rest)).evaluate valuation := by
  induction rest generalizing chosen with
  | nil => rw [spread, List.append_nil]
  | cons disjunct rest ih =>
      rw [spread, evaluate_overConjuncts valuation _ ((or (chosen ++ rest)).evaluate valuation)]
      · simp only [evaluate_or, List.any_append, List.any_cons]
        cases chosen.any (evaluate valuation) <;> simp [Bool.or_comm]
      · intro leaf
        simp only [ih, evaluate_or, List.any_append, List.any_cons, List.any_nil]
        cases chosen.any (evaluate valuation) <;> simp [Bool.or_comm]

/-- Spreads the conjunctions of a disjunction, whose parts are already spread. -/
def distributeNode : Formula → Formula
  | .or disjuncts => spread [] disjuncts
  | node => node

theorem evaluate_distributeNode (valuation : Valuation) (node : Formula) :
    node.distributeNode.evaluate valuation = node.evaluate valuation := by
  cases node with
  | or disjuncts => exact evaluate_spread valuation [] disjuncts
  | _ => rfl

def distribute (formula : Formula) : Except Malformed Formula := do
  formula.check
  return formula.mapNodes distributeNode

end Clausal.Formula
