import Clausal.Proofs.Clause.Resolution
import Mathlib.Data.Fintype.BigOperators
import Mathlib.Data.Fintype.Option

set_option autoImplicit false

namespace Clausal.Clause

/-- The sign with which an atom occurs in a clause, if it does. -/
def sign? (clause : Clause) (atom : String) : Option Bool :=
  [false, true].find? fun negated => clause.contains ⟨atom, negated⟩

theorem sign?_eq_some_iff (clause : Clause) (proper : clause.isTautology = false)
    (literal : Literal) :
    clause.sign? literal.atom = some literal.negated ↔ literal ∈ clause.literals := by
  obtain ⟨atom, negated⟩ := literal
  have single : ⟨atom, false⟩ ∈ clause.literals → ⟨atom, true⟩ ∉ clause.literals := by
    intro plain inverse
    have tautology := (isTautology_iff clause).mpr ⟨⟨atom, false⟩, plain, inverse⟩
    rw [proper] at tautology
    cases tautology
  by_cases plain : ⟨atom, false⟩ ∈ clause.literals <;>
    by_cases inverse : ⟨atom, true⟩ ∈ clause.literals <;>
    cases negated <;> simp_all [sign?, contains]

def signs (names : List String) (clause : Clause) (place : Fin names.length) : Option Bool :=
  clause.sign? names[place]

/-- A clause over the listed atoms is given by their signs. -/
theorem canonical_eq_of_signs_eq (names : List String) (clause other : Clause)
    (first : clause.literals.Nodup) (second : other.literals.Nodup)
    (proper : clause.isTautology = false) (proper' : other.isTautology = false)
    (within : ∀ literal ∈ clause.literals, literal.atom ∈ names)
    (within' : ∀ literal ∈ other.literals, literal.atom ∈ names)
    (same : signs names clause = signs names other) : clause.canonical = other.canonical := by
  have signsAgree : ∀ atom ∈ names, clause.sign? atom = other.sign? atom := by
    intro atom listed
    obtain ⟨place, inside, rfl⟩ := List.mem_iff_getElem.mp listed
    exact congrFun same ⟨place, inside⟩
  apply canonical_eq_of_mem_iff clause other first second
  intro literal
  rw [← sign?_eq_some_iff clause proper, ← sign?_eq_some_iff other proper']
  constructor
  · intro found
    have listed := within literal ((sign?_eq_some_iff clause proper literal).mp found)
    rw [← signsAgree _ listed, found]
  · intro found
    have listed := within' literal ((sign?_eq_some_iff other proper' literal).mp found)
    rw [signsAgree _ listed, found]

theorem length_le_pow (names : List String) (clauses : List Clause)
    (distinct : ∀ clause ∈ clauses, clause.literals.Nodup)
    (proper : ∀ clause ∈ clauses, clause.isTautology = false)
    (within : ∀ clause ∈ clauses, ∀ literal ∈ clause.literals, literal.atom ∈ names)
    (apart : clauses.Pairwise fun clause other => clause.canonical ≠ other.canonical) :
    clauses.length ≤ 3 ^ names.length := by
  have different : (clauses.map (signs names)).Nodup := by
    refine List.pairwise_map.mpr (apart.imp_of_mem ?_)
    intro clause other member member' unlike same
    exact unlike (canonical_eq_of_signs_eq names clause other (distinct clause member)
      (distinct other member') (proper clause member) (proper other member')
      (within clause member) (within other member') same)
  calc
    clauses.length = (clauses.map (signs names)).length := (List.length_map _).symm
    _ ≤ Fintype.card (Fin names.length → Option Bool) := different.length_le_card
    _ = 3 ^ names.length := by
      rw [Fintype.card_fun, Fintype.card_option, Fintype.card_bool, Fintype.card_fin]

end Clausal.Clause
