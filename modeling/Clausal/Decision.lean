import Clausal.NormalForm.Pass
import Clausal.Saturation.Engine

set_option autoImplicit false

namespace Clausal

instance : MonadLift (Except Budget) (Except Failure) where
  monadLift outcome := outcome.mapError .exhausted

namespace Formula

/-- Closes a formula in normal form under resolution, or until it is refuted. The
answer is whether it was, and the formula of the clauses at the end. -/
def resolve (config : Config) (environment : Environment) (formula : Formula) :
    Except Failure (Bool × Formula) := do
  let set ← ClauseSet.ofFormula formula
  let engine := (Engine.start config set).refute environment
  return (← engine.verdict, engine.set.toFormula)

/-- Whether some valuation makes the formula true. -/
def satisfiable (config : Config) (environment : Environment) (formula : Formula) :
    Except Failure Bool := do
  let set ← formula.clauseSet
  return !(← ((Engine.start config set).refute environment).verdict)

end Formula
end Clausal
