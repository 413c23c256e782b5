import Clausal.Literal

set_option autoImplicit false

namespace Clausal

/-- A list of literals, of which at least one is to hold. Clauses made by `ofList`
have no literal twice; a clause given by its bare list may. -/
structure Clause where
  literals : List Literal
  deriving DecidableEq, Inhabited

namespace Clause

/-- Keeps each literal where it is first seen. -/
def ofList (literals : List Literal) : Clause :=
  ⟨literals.eraseDups⟩

@[simp] theorem mem_ofList (literal : Literal) (literals : List Literal) :
    literal ∈ (ofList literals).literals ↔ literal ∈ literals :=
  List.mem_eraseDups

def size (clause : Clause) : Nat :=
  clause.literals.length

def isEmpty (clause : Clause) : Bool :=
  clause.literals.isEmpty

def isUnit (clause : Clause) : Bool :=
  clause.size == 1

def contains (clause : Clause) (literal : Literal) : Bool :=
  clause.literals.contains literal

theorem contains_iff (clause : Clause) (literal : Literal) :
    clause.contains literal = true ↔ literal ∈ clause.literals :=
  List.contains_iff_mem

def containsInverseOf (clause : Clause) (literal : Literal) : Bool :=
  clause.literals.any (·.isInverseOf literal)

theorem containsInverseOf_iff (clause : Clause) (literal : Literal) :
    clause.containsInverseOf literal = true ↔ literal.negate ∈ clause.literals := by
  simp [containsInverseOf, Literal.isInverseOf_iff]

/-- The literals in order. Rearranging a clause does not change it, repeating a literal does. -/
def canonical (clause : Clause) : List Literal :=
  Ordered.sort clause.literals

theorem canonical_eq_iff (clause other : Clause) :
    clause.canonical = other.canonical ↔ clause.literals.Perm other.literals :=
  Ordered.sort_eq_sort_iff clause.literals other.literals

def isTautology (clause : Clause) : Bool :=
  clause.literals.any clause.containsInverseOf

theorem isTautology_iff (clause : Clause) :
    clause.isTautology = true ↔ ∃ literal ∈ clause.literals, literal.negate ∈ clause.literals := by
  simp [isTautology, containsInverseOf_iff]

/-- Equality up to order. For clauses without repeats equal counts make the one
inclusion a test of both; with repeats the relation is not symmetric. -/
def sameAs (clause other : Clause) : Bool :=
  clause.size == other.size && clause.literals.all other.contains

theorem sameAs_iff (clause other : Clause) :
    clause.sameAs other = true ↔
      clause.size = other.size ∧ ∀ literal ∈ clause.literals, literal ∈ other.literals := by
  simp [sameAs, contains_iff]

def atoms (clause : Clause) : List String :=
  clause.literals.map Literal.atom

def text (clause : Clause) : String :=
  " || ".intercalate (clause.literals.map Literal.text)

instance : ToString Clause := ⟨text⟩

def evaluate (valuation : Valuation) (clause : Clause) : Bool :=
  clause.literals.any (Literal.evaluate valuation)

theorem evaluate_iff (valuation : Valuation) (clause : Clause) :
    clause.evaluate valuation = true ↔
      ∃ literal ∈ clause.literals, literal.evaluate valuation = true := by
  simp [evaluate]

@[simp] theorem evaluate_ofList (valuation : Valuation) (literals : List Literal) :
    (ofList literals).evaluate valuation = literals.any (Literal.evaluate valuation) := by
  rw [Bool.eq_iff_iff, evaluate_iff]
  simp

theorem evaluate_of_isTautology (valuation : Valuation) (clause : Clause)
    (tautology : clause.isTautology = true) : clause.evaluate valuation = true := by
  obtain ⟨literal, member, inverse⟩ := (isTautology_iff clause).mp tautology
  rw [evaluate_iff]
  by_cases holds : literal.evaluate valuation = true
  · exact ⟨literal, member, holds⟩
  · exact ⟨literal.negate, inverse, by simp [holds]⟩

def toFormula (clause : Clause) : Formula :=
  .or (clause.literals.map Literal.toFormula)

@[simp] theorem evaluate_toFormula (valuation : Valuation) (clause : Clause) :
    clause.toFormula.evaluate valuation = clause.evaluate valuation := by
  simp [toFormula, evaluate, Function.comp_def]

def ofFormula (node : Formula) : Except Malformed Clause := do
  failWith node.fault?
  match node with
  | .or disjuncts => return ofList (← disjuncts.mapM Literal.ofFormula)
  | _ => throw (.notAClause node)

end Clause
end Clausal
