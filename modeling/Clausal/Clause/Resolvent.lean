import Clausal.Clause.Basic

set_option autoImplicit false

/- Resolution of two clauses. Only the first clash of the left clause is used: a
second clash leaves an atom and its negation behind, so it makes every resolvent
of the pair a tautology. -/
namespace Clausal.Clause

/-- Whether every literal of the clause has its inverse in the other. -/
def conflictsWith (clause other : Clause) : Bool :=
  clause.literals.all other.containsInverseOf

/-- Whether the clauses are single literals, each the inverse of the other. These
are the pairs whose resolvent is the empty clause. -/
def isComplementaryTo (clause other : Clause) : Bool :=
  clause.isUnit && clause.conflictsWith other && other.conflictsWith clause

/-- The first literal of the clause whose inverse is in the other. -/
def pivot? (clause other : Clause) : Option Literal :=
  clause.literals.find? other.containsInverseOf

theorem pivot?_isSome_iff (clause other : Clause) :
    (clause.pivot? other).isSome = true ↔
      ∃ literal ∈ clause.literals, literal.negate ∈ other.literals := by
  simp [pivot?, List.find?_isSome, containsInverseOf_iff]

theorem mem_of_pivot? (clause other : Clause) (literal : Literal)
    (found : clause.pivot? other = some literal) :
    literal ∈ clause.literals ∧ literal.negate ∈ other.literals :=
  ⟨List.mem_of_find?_eq_some found,
    (containsInverseOf_iff other literal).mp (List.find?_some found)⟩

def canResolveWith (clause other : Clause) : Bool :=
  (clause.pivot? other).isSome && !clause.isComplementaryTo other

/-- The resolvent on a given literal: what is left of both clauses when one gives
up the literal and the other its inverse. -/
def resolveOn (literal : Literal) (clause other : Clause) : Clause :=
  ofList (clause.literals.filter (· != literal) ++ other.literals.filter (· != literal.negate))

/-- The resolvent on the pivot of the clause. Clauses without a clash are joined. -/
def resolveWith (clause other : Clause) : Clause :=
  match clause.pivot? other with
  | some literal => resolveOn literal clause other
  | none => ofList (clause.literals ++ other.literals)

theorem mem_resolveOn (literal member : Literal) (clause other : Clause) :
    member ∈ (resolveOn literal clause other).literals ↔
      (member ∈ clause.literals ∧ member ≠ literal) ∨
        (member ∈ other.literals ∧ member ≠ literal.negate) := by
  simp [resolveOn]

theorem evaluate_resolveOn (valuation : Valuation) (literal : Literal) (clause other : Clause)
    (left : clause.evaluate valuation = true) (right : other.evaluate valuation = true) :
    (resolveOn literal clause other).evaluate valuation = true := by
  -- A valuation makes the literal or its inverse false, so one of the clauses holds by a literal
  -- which is kept.
  obtain ⟨first, firstMember, firstHolds⟩ := (evaluate_iff valuation clause).mp left
  obtain ⟨second, secondMember, secondHolds⟩ := (evaluate_iff valuation other).mp right
  simp only [evaluate_iff, mem_resolveOn]
  by_cases given : first = literal
  · refine ⟨second, Or.inr ⟨secondMember, ?_⟩, secondHolds⟩
    rintro rfl
    simp [given ▸ firstHolds] at secondHolds
  · exact ⟨first, Or.inl ⟨firstMember, given⟩, firstHolds⟩

theorem evaluate_resolveWith (valuation : Valuation) (clause other : Clause)
    (left : clause.evaluate valuation = true) (right : other.evaluate valuation = true) :
    (clause.resolveWith other).evaluate valuation = true := by
  rw [resolveWith]
  split
  · exact evaluate_resolveOn valuation _ clause other left right
  · rw [evaluate_ofList, List.any_append]
    exact Bool.or_eq_true_iff.mpr (Or.inl left)

end Clausal.Clause
