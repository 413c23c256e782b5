import Clausal.Formula.Text

set_option autoImplicit false

namespace Clausal

inductive Arity where
  | exactly (count : Nat)
  | atLeast (count : Nat)
  deriving DecidableEq

def Arity.text : Arity → String
  | .exactly count => s!"exactly {count}"
  | .atLeast count => s!"at least {count}"

def Arity.allows : Arity → Nat → Bool
  | .exactly count, found => found == count
  | .atLeast count, found => decide (count ≤ found)

/-- A node which breaks the shape its place asks for. -/
inductive Malformed where
  | unnamedAtom
  | emptyDisjunction
  | arity (tag : String) (expected : Arity) (found : Nat)
  | notALiteral (node : Formula)
  | notAClause (node : Formula)
  | notAClauseSet (node : Formula)
  deriving DecidableEq

def Malformed.message : Malformed → String
  | .unnamedAtom => "MalformedFormula: an atom without a name"
  | .emptyDisjunction => "MalformedFormula: an or without children"
  | .arity tag expected found =>
      s!"MalformedFormula: {tag} requires {expected.text} children, found {found}"
  | .notALiteral node => s!"MalformedFormula: {node.text} is not a literal"
  | .notAClause node => s!"MalformedFormula: {node.text} is not a clause"
  | .notAClauseSet node => s!"MalformedFormula: {node.text} is not a clause set"

/-- A node which an earlier pass would have removed. For a conjunction below
a disjunction it is the nearest such disjunction. -/
inductive Uncollapsible where
  | bicondition (node : Formula)
  | condition (node : Formula)
  | negatedCompound (node : Formula)
  | undistributed (disjunction : Formula)
  deriving DecidableEq

def Uncollapsible.message : Uncollapsible → String
  | .bicondition node => s!"InvalidCollapseState: bicondition {node.text} remains"
  | .condition node => s!"InvalidCollapseState: condition {node.text} remains"
  | .negatedCompound node =>
      s!"InvalidCollapseState: negation {node.text} is not pushed to an atom"
  | .undistributed disjunction =>
      s!"InvalidCollapseState: disjunction {disjunction.text} is not distributed"

/-- A limit which ends a run before its verdict. -/
inductive Budget where
  | time
  | rounds
  | clauses
  deriving DecidableEq

def Budget.message : Budget → String
  | .time => "Resolution: time up"
  | .rounds => "Resolution: round limit reached"
  | .clauses => "Resolution: clause limit reached"

inductive Failure where
  | malformed (cause : Malformed)
  | uncollapsible (cause : Uncollapsible)
  | exhausted (budget : Budget)
  deriving DecidableEq

def Failure.message : Failure → String
  | .malformed cause => cause.message
  | .uncollapsible cause => cause.message
  | .exhausted budget => budget.message

instance : MonadLift (Except Malformed) (Except Failure) where
  monadLift outcome := outcome.mapError .malformed

@[simp] theorem lift_ok {α : Type} (value : α) :
    (liftM (Except.ok value : Except Malformed α) : Except Failure α) = .ok value := rfl

@[simp] theorem lift_error {α : Type} (cause : Malformed) :
    (liftM (Except.error cause : Except Malformed α) : Except Failure α) =
      .error (.malformed cause) := rfl

end Clausal
