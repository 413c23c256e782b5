import Clausal.Formula.Fault
import Clausal.Formula.Value

set_option autoImplicit false

namespace Clausal

structure Literal where
  atom : String
  negated : Bool
  deriving DecidableEq, Inhabited

namespace Literal

def negate (literal : Literal) : Literal :=
  ⟨literal.atom, !literal.negated⟩

@[simp] theorem negate_negate (literal : Literal) : literal.negate.negate = literal := by
  simp [negate]

theorem negate_ne (literal : Literal) : literal.negate ≠ literal := by
  intro same
  simpa [negate] using congrArg negated same

def isInverseOf (literal other : Literal) : Bool :=
  literal.atom == other.atom && literal.negated != other.negated

theorem isInverseOf_iff (literal other : Literal) :
    literal.isInverseOf other = true ↔ literal = other.negate := by
  cases literal
  cases other
  simp [isInverseOf, negate, Bool.eq_not]

/-- By atom, and an atom before its negation. -/
instance : Ord Literal := ⟨compareLex (compareOn Literal.atom) (compareOn Literal.negated)⟩

instance : Std.TransOrd Literal :=
  inferInstanceAs (Std.TransCmp (compareLex (compareOn Literal.atom) (compareOn Literal.negated)))

instance : Std.LawfulEqOrd Literal where
  eq_of_compare {literal other} equal := by
    obtain ⟨atoms, signs⟩ := compareLex_eq_eq.mp equal
    cases literal
    cases other
    simp_all [compareOn]

def text (literal : Literal) : String :=
  if literal.negated then "!" ++ literal.atom else literal.atom

instance : ToString Literal := ⟨text⟩

/-- A literal holds where its atom has the value it claims. -/
def evaluate (valuation : Valuation) (literal : Literal) : Bool :=
  valuation.valueOf literal.atom != literal.negated

@[simp] theorem evaluate_negate (valuation : Valuation) (literal : Literal) :
    literal.negate.evaluate valuation = !literal.evaluate valuation := by
  simp [evaluate, negate]

def toFormula (literal : Literal) : Formula :=
  if literal.negated then .not (.atom literal.atom) else .atom literal.atom

@[simp] theorem evaluate_toFormula (valuation : Valuation) (literal : Literal) :
    literal.toFormula.evaluate valuation = literal.evaluate valuation := by
  obtain ⟨atom, negated⟩ := literal
  cases negated <;> simp [toFormula, evaluate, Formula.evaluate]

/-- Reads an atom or a negated atom. A node at fault is refused as such before
its kind is looked at. -/
def ofFormula (node : Formula) : Except Malformed Literal := do
  failWith node.fault?
  match node with
  | .atom name => return ⟨name, false⟩
  | .not (.atom name) => do
      failWith (Formula.atom name).fault?
      return ⟨name, true⟩
  | _ => throw (.notALiteral node)

theorem ofFormula_toFormula (literal : Literal) (named : literal.atom.isEmpty = false) :
    ofFormula literal.toFormula = .ok literal := by
  obtain ⟨atom, negated⟩ := literal
  have faultless : (Formula.atom atom).fault? = none := if_neg (Bool.not_eq_true _ ▸ named)
  cases negated with
  | false =>
      change (failWith (Formula.atom atom).fault? >>= fun _ => .ok (Literal.mk atom false)) = _
      rw [faultless]
      rfl
  | true =>
      change (failWith (Formula.atom atom).fault? >>= fun _ => .ok (Literal.mk atom true)) = _
      rw [faultless]
      rfl

end Literal
end Clausal
