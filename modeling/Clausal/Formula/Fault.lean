import Clausal.Failure
import Clausal.Formula.Occurrences
import Clausal.Outcome

set_option autoImplicit false

namespace Clausal

namespace Formula

/-- The fault of a node by itself, whatever is below it. -/
def fault? : Formula → Option Malformed
  | .atom name => if name.isEmpty then some .unnamedAtom else none
  | .or [] => some .emptyDisjunction
  | _ => none

/-- Refuses the first faulty node, a node coming before its parts. -/
def check (formula : Formula) : Except Malformed Unit :=
  failWith (formula.subformulas.findSome? fault?)

theorem check_eq_ok (formula : Formula) :
    formula.check = .ok () ↔ ∀ node ∈ formula.subformulas, node.fault? = none := by
  rw [check, failWith_eq_ok, List.findSome?_eq_none_iff]

end Formula
end Clausal
