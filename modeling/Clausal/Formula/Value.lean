import Clausal.Formula.Basic
import Clausal.Valuation

set_option autoImplicit false

namespace Clausal.Formula

mutual

def evaluate (valuation : Valuation) : Formula → Bool
  | .atom name => valuation.valueOf name
  | .not body => !evaluate valuation body
  | .and conjuncts => evaluateAll valuation conjuncts
  | .or disjuncts => evaluateAny valuation disjuncts
  | .condition antecedent consequent =>
      !evaluate valuation antecedent || evaluate valuation consequent
  | .bicondition left right => evaluate valuation left == evaluate valuation right

def evaluateAll (valuation : Valuation) : List Formula → Bool
  | [] => true
  | part :: rest => evaluate valuation part && evaluateAll valuation rest

def evaluateAny (valuation : Valuation) : List Formula → Bool
  | [] => false
  | part :: rest => evaluate valuation part || evaluateAny valuation rest

end

theorem evaluateAll_eq (valuation : Valuation) (parts : List Formula) :
    evaluateAll valuation parts = parts.all (evaluate valuation) := by
  induction parts with
  | nil => rfl
  | cons part rest ih => rw [evaluateAll, List.all_cons, ih]

theorem evaluateAny_eq (valuation : Valuation) (parts : List Formula) :
    evaluateAny valuation parts = parts.any (evaluate valuation) := by
  induction parts with
  | nil => rfl
  | cons part rest ih => rw [evaluateAny, List.any_cons, ih]

@[simp] theorem evaluate_and (valuation : Valuation) (conjuncts : List Formula) :
    (and conjuncts).evaluate valuation = conjuncts.all (evaluate valuation) :=
  evaluateAll_eq valuation conjuncts

@[simp] theorem evaluate_or (valuation : Valuation) (disjuncts : List Formula) :
    (or disjuncts).evaluate valuation = disjuncts.any (evaluate valuation) :=
  evaluateAny_eq valuation disjuncts

theorem evaluate_and_map (valuation : Valuation) (change : Formula → Formula)
    (conjuncts : List Formula)
    (each : ∀ part ∈ conjuncts, (change part).evaluate valuation = part.evaluate valuation) :
    (and (conjuncts.map change)).evaluate valuation = (and conjuncts).evaluate valuation := by
  induction conjuncts with
  | nil => rfl
  | cons part rest ih =>
      simp_all

theorem evaluate_or_map (valuation : Valuation) (change : Formula → Formula)
    (disjuncts : List Formula)
    (each : ∀ part ∈ disjuncts, (change part).evaluate valuation = part.evaluate valuation) :
    (or (disjuncts.map change)).evaluate valuation = (or disjuncts).evaluate valuation := by
  induction disjuncts with
  | nil => rfl
  | cons part rest ih =>
      simp_all

end Clausal.Formula
