import Clausal.Clause.Basic
import Std.Data.TreeSet.Basic
import Std.Data.TreeSet.Lemmas

set_option autoImplicit false

namespace Clausal

/-- The clauses in the order they were added, and an index of their canonical forms. A set never
shrinks, so a clause is known by the place at which it was added. -/
structure ClauseSet where
  clauses : Array Clause := #[]
  index : Std.TreeSet (List Literal) := ∅
  deriving Inhabited

namespace ClauseSet

def size (set : ClauseSet) : Nat :=
  set.clauses.size

def isEmpty (set : ClauseSet) : Bool :=
  set.clauses.isEmpty

def get? (set : ClauseSet) (key : Nat) : Option Clause :=
  set.clauses[key]?

/-- Whether a clause of the same canonical form is in the set. -/
def contains (set : ClauseSet) (clause : Clause) : Bool :=
  set.index.contains clause.canonical

/-- Adds a clause, with its key, or refuses a tautology or a clause of the set. -/
def insert (set : ClauseSet) (clause : Clause) : Option Nat × ClauseSet :=
  if clause.isTautology || set.contains clause then (none, set)
  else (some set.size, ⟨set.clauses.push clause, set.index.insert clause.canonical⟩)

theorem insert_refused (set : ClauseSet) (clause : Clause)
    (refused : clause.isTautology = true ∨ set.contains clause = true) :
    set.insert clause = (none, set) := by
  rw [insert, if_pos (Bool.or_eq_true_iff.mpr refused)]

theorem insert_fresh (set : ClauseSet) (clause : Clause)
    (proper : clause.isTautology = false) (fresh : set.contains clause = false) :
    set.insert clause =
      (some set.size, ⟨set.clauses.push clause, set.index.insert clause.canonical⟩) := by
  rw [insert, proper, fresh]
  rfl

theorem contains_insert (set : ClauseSet) (clause other : Clause)
    (proper : clause.isTautology = false) :
    (set.insert clause).2.contains other =
      (clause.canonical == other.canonical || set.contains other) := by
  cases known : set.contains clause with
  | false =>
      rw [insert_fresh set clause proper known]
      simp only [contains, Std.TreeSet.contains_insert]
      congr 1
      rw [Bool.eq_iff_iff, beq_iff_eq, beq_iff_eq]
      exact Std.compare_eq_iff_eq
  | true =>
      rw [insert_refused set clause (Or.inr known)]
      by_cases same : clause.canonical = other.canonical
      · rw [contains, ← same]
        simp [contains] at known
        simp [known]
      · simp [same]

def ofList (clauses : List Clause) : ClauseSet :=
  clauses.foldl (fun set clause => (set.insert clause).2) {}

theorem ofList_concat (clauses : List Clause) (clause : Clause) :
    ofList (clauses ++ [clause]) = ((ofList clauses).insert clause).2 := by
  rw [ofList, List.foldl_append]
  rfl

/-- Equality up to the order of clauses and of the literals in each. -/
def sameAs (set other : ClauseSet) : Bool :=
  set.index == other.index

def atoms (set : ClauseSet) : List String :=
  Ordered.distinct (set.clauses.toList.flatMap Clause.atoms)

def text (set : ClauseSet) : String :=
  String.join (set.clauses.toList.map fun clause => "| " ++ clause.text ++ "\n")

instance : ToString ClauseSet := ⟨text⟩

def evaluate (valuation : Valuation) (set : ClauseSet) : Bool :=
  set.clauses.toList.all (Clause.evaluate valuation)

def toFormula (set : ClauseSet) : Formula :=
  .and (set.clauses.toList.map Clause.toFormula)

@[simp] theorem evaluate_toFormula (valuation : Valuation) (set : ClauseSet) :
    set.toFormula.evaluate valuation = set.evaluate valuation := by
  simp [toFormula, evaluate, Function.comp_def]

def ofFormula (node : Formula) : Except Malformed ClauseSet :=
  match node with
  | .and conjuncts => do return ofList (← conjuncts.mapM Clause.ofFormula)
  | _ => throw (.notAClauseSet node)

end ClauseSet
end Clausal
