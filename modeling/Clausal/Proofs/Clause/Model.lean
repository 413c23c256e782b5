import Clausal.Proofs.Clause.Resolution

set_option autoImplicit false

/- Clauses which are closed under resolution have a valuation in common, unless
one of them is empty. The valuation is built atom by atom: if both values of an
atom make some clause over the atoms so far false, then so is, before that atom
has a value, what these two clauses leave when resolved on it. -/
namespace Clausal

theorem Literal.evaluate_set_of_ne (valuation : Valuation) (literal : Literal) (atom : String)
    (value : Bool) (apart : literal.atom ≠ atom) :
    literal.evaluate (valuation.set atom value) = literal.evaluate valuation := by
  rw [evaluate, evaluate, Valuation.valueOf_set, if_neg (Ne.symm apart)]

theorem Literal.eq_of_evaluate_set_eq_false (valuation : Valuation) (literal : Literal)
    (value : Bool) (falsified : literal.evaluate (valuation.set literal.atom value) = false) :
    literal = ⟨literal.atom, value⟩ := by
  obtain ⟨atom, negated⟩ := literal
  rw [evaluate, Valuation.valueOf_set, if_pos rfl] at falsified
  cases value <;> cases negated <;> simp_all

namespace Clause

theorem evaluate_eq_false_iff (valuation : Valuation) (clause : Clause) :
    clause.evaluate valuation = false ↔
      ∀ literal ∈ clause.literals, literal.evaluate valuation = false := by
  simp [evaluate]

/-- No two of the clauses are complementary, and what two of them leave on a clash
is a tautology or, up to order, one of them. -/
structure Closed (clauses : List Clause) : Prop where
  distinct : ∀ clause ∈ clauses, clause.literals.Nodup
  free : ∀ clause ∈ clauses, ∀ other ∈ clauses, clause.isComplementaryTo other = false
  full : ∀ clause ∈ clauses, ∀ other ∈ clauses, ∀ literal ∈ clause.literals,
    literal.negate ∈ other.literals → (resolveOn literal clause other).isTautology = false →
      ∃ member ∈ clauses, ∀ left,
        left ∈ member.literals ↔ left ∈ (resolveOn literal clause other).literals

/-- The clauses over the given atoms hold, except that the empty clause need not. -/
def Satisfies (valuation : Valuation) (atoms : List String) (clauses : List Clause) : Prop :=
  ∀ clause ∈ clauses, clause.literals ≠ [] →
    (∀ literal ∈ clause.literals, literal.atom ∈ atoms) → clause.evaluate valuation = true

/-- A clause which only fails for the value of one more atom has the literal of the
atom which this value makes false, and all its other literals failed before. -/
theorem literals_of_falsified (valuation : Valuation) (atom : String) (value : Bool)
    (atoms : List String) (clauses : List Clause) (before : Satisfies valuation atoms clauses)
    (clause : Clause) (member : clause ∈ clauses) (inhabited : clause.literals ≠ [])
    (within : ∀ literal ∈ clause.literals, literal.atom ∈ atom :: atoms)
    (falsified : clause.evaluate (valuation.set atom value) = false) :
    ⟨atom, value⟩ ∈ clause.literals ∧
      ∀ literal ∈ clause.literals, literal ≠ ⟨atom, value⟩ →
        literal.atom ∈ atoms ∧ literal.evaluate valuation = false := by
  have others : ∀ literal ∈ clause.literals, literal ≠ ⟨atom, value⟩ →
      literal.atom ∈ atoms ∧ literal.evaluate valuation = false := by
    intro literal inside apart
    have fails := (evaluate_eq_false_iff _ clause).mp falsified literal inside
    have different : literal.atom ≠ atom := by
      intro same
      rw [← same] at fails
      exact apart (same ▸ Literal.eq_of_evaluate_set_eq_false valuation literal value fails)
    rw [Literal.evaluate_set_of_ne valuation literal atom value different] at fails
    exact ⟨(List.mem_cons.mp (within literal inside)).resolve_left different, fails⟩
  refine ⟨?_, others⟩
  by_contra absent
  have each : ∀ literal ∈ clause.literals,
      literal.atom ∈ atoms ∧ literal.evaluate valuation = false := by
    intro literal inside
    exact others literal inside fun same => absent (same ▸ inside)
  have holds := before clause member inhabited fun literal inside => (each literal inside).1
  have fails := (evaluate_eq_false_iff valuation clause).mpr fun literal inside =>
    (each literal inside).2
  rw [fails] at holds
  cases holds

/-- One of the values of a further atom makes no clause over the atoms false. -/
theorem exists_satisfies_cons (valuation : Valuation) (atom : String) (atoms : List String)
    (clauses : List Clause) (closed : Closed clauses)
    (before : Satisfies valuation atoms clauses) :
    ∃ value, Satisfies (valuation.set atom value) (atom :: atoms) clauses := by
  by_contra neither
  simp only [Satisfies, not_exists, not_forall, Bool.not_eq_true] at neither
  obtain ⟨clause, member, inhabited, within, falsified⟩ := neither false
  obtain ⟨other, member', inhabited', within', falsified'⟩ := neither true
  obtain ⟨left, rest⟩ := literals_of_falsified valuation atom false atoms clauses before clause
    member inhabited within falsified
  obtain ⟨right, rest'⟩ := literals_of_falsified valuation atom true atoms clauses before other
    member' inhabited' within' falsified'
  -- the resolvent is over the earlier atoms, and false there
  have failed : ∀ literal ∈ (resolveOn ⟨atom, false⟩ clause other).literals,
      literal.atom ∈ atoms ∧ literal.evaluate valuation = false := by
    intro literal inside
    rcases (mem_resolveOn _ _ _ _).mp inside with ⟨inside, apart⟩ | ⟨inside, apart⟩
    · exact rest literal inside apart
    · exact rest' literal inside apart
  have fails := (evaluate_eq_false_iff valuation _).mpr fun literal inside =>
    (failed literal inside).2
  have proper : (resolveOn ⟨atom, false⟩ clause other).isTautology = false := by
    rw [Bool.eq_false_iff]
    intro tautology
    rw [evaluate_of_isTautology valuation _ tautology] at fails
    cases fails
  have remains : (resolveOn ⟨atom, false⟩ clause other).literals ≠ [] := by
    intro empty
    have complementary := isComplementaryTo_of_resolveOn_empty ⟨atom, false⟩ clause other
      (closed.distinct clause member) left right empty
    rw [closed.free clause member other member'] at complementary
    cases complementary
  obtain ⟨resolvent, found, same⟩ := closed.full clause member other member' ⟨atom, false⟩ left
    right proper
  have some : resolvent.literals ≠ [] := by
    obtain ⟨literal, inside⟩ := List.exists_mem_of_ne_nil _ remains
    exact List.ne_nil_of_mem ((same literal).mpr inside)
  have holds := before resolvent found some fun literal inside =>
    (failed literal ((same literal).mp inside)).1
  have fails' := (evaluate_eq_false_iff valuation resolvent).mpr fun literal inside =>
    (failed literal ((same literal).mp inside)).2
  rw [fails'] at holds
  cases holds

theorem exists_satisfies (clauses : List Clause) (closed : Closed clauses)
    (atoms : List String) : ∃ valuation, Satisfies valuation atoms clauses := by
  induction atoms with
  | nil =>
      refine ⟨{}, fun clause _ inhabited within => ?_⟩
      obtain ⟨literal, inside⟩ := List.exists_mem_of_ne_nil _ inhabited
      cases within literal inside
  | cons atom atoms ih =>
      obtain ⟨valuation, before⟩ := ih
      obtain ⟨value, after⟩ := exists_satisfies_cons valuation atom atoms clauses closed before
      exact ⟨valuation.set atom value, after⟩

/-- Closed clauses, less the empty clause, hold together on some valuation. -/
theorem exists_valuation_of_closed (clauses : List Clause) (closed : Closed clauses) :
    ∃ valuation, ∀ clause ∈ clauses, clause.literals ≠ [] → clause.evaluate valuation = true := by
  obtain ⟨valuation, satisfies⟩ := exists_satisfies clauses closed (clauses.flatMap atoms)
  refine ⟨valuation, fun clause member inhabited => satisfies clause member inhabited ?_⟩
  intro literal inside
  exact List.mem_flatMap.mpr ⟨clause, member, List.mem_map_of_mem inside⟩

end Clause
end Clausal
