import Clausal.Clause.Resolvent
import Clausal.ClauseSet

set_option autoImplicit false

namespace Clausal

/-- The keys of two clauses. -/
abbrev Pair := Nat × Nat

/-- Pairs in the order of a scan: by the first key and then by the second. -/
def Pair.order (pair other : Pair) : Ordering :=
  compareLex (compareOn Prod.fst) (compareOn Prod.snd) pair other

structure Staged where
  clause : Clause
  parents : Pair
  deriving DecidableEq

instance : Ord Staged := ⟨fun staged other => Pair.order staged.parents other.parents⟩

/-- What a scan has found: a complementary pair if it came to one, the resolvents
staged, and the count of pairs checked. -/
structure Scan where
  conflict : Option Pair := none
  staged : Array Staged := #[]
  pairs : Nat := 0

/-- A scan under way, with the canonical forms of what it has staged. -/
structure Sweep extends Scan where
  seen : Std.TreeSet (List Literal) := ∅

namespace Sweep

/-- The resolvent of a pair, if it is worth staging. -/
def fresh? (set : ClauseSet) (seen : Std.TreeSet (List Literal)) (clause other : Clause) :
    Option Clause :=
  if clause.canResolveWith other then
    let resolvent := clause.resolveWith other
    if resolvent.isTautology || set.contains resolvent || seen.contains resolvent.canonical then
      none
    else some resolvent
  else none

theorem fresh?_eq_some (set : ClauseSet) (seen : Std.TreeSet (List Literal))
    (clause other resolvent : Clause) :
    fresh? set seen clause other = some resolvent ↔
      clause.canResolveWith other = true ∧ clause.resolveWith other = resolvent ∧
        resolvent.isTautology = false ∧ set.contains resolvent = false ∧
          seen.contains resolvent.canonical = false := by
  rw [fresh?]
  by_cases able : clause.canResolveWith other = true
  · simp only [able, ↓reduceIte, true_and]
    split
    · rename_i refused
      constructor
      · simp
      · rintro ⟨rfl, proper, unknown, unseen⟩
        simp [proper, unknown, unseen] at refused
    · rename_i kept
      simp only [Bool.or_eq_true, not_or, Bool.not_eq_true] at kept
      constructor
      · rintro ⟨rfl⟩
        exact ⟨rfl, kept.1.1, kept.1.2, kept.2⟩
      · rintro ⟨rfl, -⟩
        rfl
  · simp [able]

def check (set : ClauseSet) (sweep : Sweep) (pair : Pair) (clause other : Clause) : Sweep :=
  let sweep := { sweep with pairs := sweep.pairs + 1 }
  if clause.isComplementaryTo other then { sweep with conflict := some pair }
  else match fresh? set sweep.seen clause other with
    | some resolvent =>
        { sweep with
          staged := sweep.staged.push ⟨resolvent, pair⟩
          seen := sweep.seen.insert resolvent.canonical }
    | none => sweep

/-- Goes on to one more pair, unless a conflict has ended the sweep. -/
def visit (set : ClauseSet) (sweep : Sweep) (pair : Pair) : Sweep :=
  match sweep.conflict, set.get? pair.1, set.get? pair.2 with
  | none, some clause, some other => sweep.check set pair clause other
  | _, _, _ => sweep

theorem visit_of_conflict (set : ClauseSet) (sweep : Sweep) (pair : Pair)
    (ended : sweep.conflict ≠ none) : sweep.visit set pair = sweep := by
  rw [visit]
  split
  · simp_all
  · rfl

end Sweep

namespace Scan

/-- The pairs of a row, in order: its own clause with itself and every later one. -/
def rowPairs (size row : Nat) : List Pair :=
  (List.range' row (size - row)).map (row, ·)

def pairsOf (size : Nat) (rows : List Nat) : List Pair :=
  rows.flatMap (rowPairs size)

theorem mem_rowPairs (size row : Nat) (pair : Pair) :
    pair ∈ rowPairs size row ↔ pair.1 = row ∧ row ≤ pair.2 ∧ pair.2 < size := by
  obtain ⟨first, second⟩ := pair
  simp only [rowPairs, List.mem_map, List.mem_range'_1, Prod.mk.injEq]
  constructor
  · rintro ⟨_, within, rfl, rfl⟩
    exact ⟨rfl, within.1, by omega⟩
  · rintro ⟨rfl, lower, upper⟩
    exact ⟨second, ⟨lower, by omega⟩, rfl, rfl⟩

theorem mem_pairsOf (size : Nat) (rows : List Nat) (pair : Pair) :
    pair ∈ pairsOf size rows ↔ pair.1 ∈ rows ∧ pair.1 ≤ pair.2 ∧ pair.2 < size := by
  simp only [pairsOf, List.mem_flatMap, mem_rowPairs]
  constructor
  · rintro ⟨_, member, rfl, within⟩
    exact ⟨member, within⟩
  · rintro ⟨member, within⟩
    exact ⟨pair.1, member, rfl, within⟩

/-- Checks each pair of the set in order, up to the first conflict. -/
def sequential (set : ClauseSet) : Scan :=
  ((pairsOf set.size (List.range set.size)).foldl (Sweep.visit set) {}).toScan

end Scan
end Clausal
