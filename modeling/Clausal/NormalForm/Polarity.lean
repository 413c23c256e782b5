import Clausal.Formula.Fault
import Clausal.Formula.Value

set_option autoImplicit false

/- The third pass: negations at atoms only. A condition or bicondition which is
still there keeps its negation, as there is no connective to turn it into. -/
namespace Clausal.Formula

def signed (positive : Bool) (formula : Formula) : Formula :=
  if positive then formula else .not formula

/-- A conjunction, or the disjunction which is its dual. -/
def conjunction (positive : Bool) (parts : List Formula) : Formula :=
  if positive then .and parts else .or parts

mutual

/-- The formula or its negation, with every negation inside pushed to an atom. -/
def push : Bool → Formula → Formula
  | positive, .atom name => signed positive (.atom name)
  | positive, .not body => push (!positive) body
  | positive, .and conjuncts => conjunction positive (pushAll positive conjuncts)
  | positive, .or disjuncts => conjunction (!positive) (pushAll positive disjuncts)
  | positive, .condition antecedent consequent =>
      signed positive (.condition (push true antecedent) (push true consequent))
  | positive, .bicondition left right =>
      signed positive (.bicondition (push true left) (push true right))

def pushAll : Bool → List Formula → List Formula
  | _, [] => []
  | positive, part :: rest => push positive part :: pushAll positive rest

end

theorem pushAll_eq (positive : Bool) (parts : List Formula) :
    pushAll positive parts = parts.map (push positive) := by
  induction parts with
  | nil => rfl
  | cons part rest ih => rw [pushAll, List.map_cons, ih]

theorem evaluate_signed (positive : Bool) (valuation : Valuation) (formula : Formula) :
    (signed positive formula).evaluate valuation = (formula.evaluate valuation == positive) := by
  cases positive <;> simp [signed, evaluate]

theorem evaluate_conjunction_push (positive : Bool) (valuation : Valuation) (parts : List Formula)
    (each : ∀ part ∈ parts,
      (part.push positive).evaluate valuation = (part.evaluate valuation == positive)) :
    (conjunction positive (parts.map (push positive))).evaluate valuation =
      ((and parts).evaluate valuation == positive) := by
  induction parts with
  | nil => cases positive <;> rfl
  | cons part rest ih =>
      have first := each part List.mem_cons_self
      have others := ih fun part member => each part (List.mem_cons_of_mem _ member)
      cases positive <;> simp_all [conjunction]

theorem evaluate_disjunction_push (positive : Bool) (valuation : Valuation) (parts : List Formula)
    (each : ∀ part ∈ parts,
      (part.push positive).evaluate valuation = (part.evaluate valuation == positive)) :
    (conjunction (!positive) (parts.map (push positive))).evaluate valuation =
      ((or parts).evaluate valuation == positive) := by
  induction parts with
  | nil => cases positive <;> rfl
  | cons part rest ih =>
      have first := each part List.mem_cons_self
      have others := ih fun part member => each part (List.mem_cons_of_mem _ member)
      cases positive <;> simp_all [conjunction]

theorem evaluate_push (valuation : Valuation) (formula : Formula) (positive : Bool) :
    (formula.push positive).evaluate valuation = (formula.evaluate valuation == positive) := by
  induction formula generalizing positive with
  | atom name => exact evaluate_signed positive valuation _
  | not body ih =>
      rw [push, ih, evaluate]
      cases body.evaluate valuation <;> cases positive <;> rfl
  | and conjuncts ih =>
      rw [push, pushAll_eq]
      exact evaluate_conjunction_push positive valuation conjuncts
        fun part member => ih part member positive
  | or disjuncts ih =>
      rw [push, pushAll_eq]
      exact evaluate_disjunction_push positive valuation disjuncts
        fun part member => ih part member positive
  | condition antecedent consequent first second =>
      rw [push, evaluate_signed]
      simp [evaluate, first, second]
  | bicondition left right first second =>
      rw [push, evaluate_signed]
      simp [evaluate, first, second]

/-- The sign of the parts of a node of the given sign. -/
def signBelow (positive : Bool) : Formula → Bool
  | .not _ => !positive
  | .condition _ _ => true
  | .bicondition _ _ => true
  | _ => positive

/-- Pushing turns a negated empty conjunction into the empty disjunction. -/
def pushFault? : Bool × Formula → Option Malformed
  | (false, .and []) => some .emptyDisjunction
  | (_, node) => node.fault?

def pushNegations (formula : Formula) : Except Malformed Formula := do
  failWith ((formula.occurrences signBelow true).findSome? pushFault?)
  return formula.push true

end Clausal.Formula
