import Clausal.Proofs.Saturation.Sweep
import Mathlib.Data.List.Flatten
import Mathlib.Data.List.TakeWhile
import Mathlib.Data.Prod.Lex

set_option autoImplicit false

namespace Clausal.Scan

/-- A scan stages resolvents of the set only, no two of them the same up to order.
Where it reports no conflict there is none, and no resolvent is left out. -/
structure Faithful (set : ClauseSet) (scan : Scan) : Prop where
  conflict : ∀ pair, scan.conflict = some pair →
    pair.1 ≤ pair.2 ∧ isConflict set pair = true
  free : scan.conflict = none → ∀ pair, pair.1 ≤ pair.2 → isConflict set pair = false
  staged : ∀ entry ∈ scan.staged.toList,
    entry.parents.1 ≤ entry.parents.2 ∧ resolvent? set entry.parents = some entry
  complete : scan.conflict = none → ∀ pair, pair.1 ≤ pair.2 → ∀ entry,
    resolvent? set pair = some entry →
      ∃ kept ∈ scan.staged.toList, kept.clause.canonical = entry.clause.canonical
  apart : scan.staged.toList.Pairwise fun entry other =>
    entry.clause.canonical ≠ other.clause.canonical

def forms (scan : Scan) : List (List Literal) :=
  scan.staged.toList.map fun entry => entry.clause.canonical

theorem Faithful.conflict_eq_none_iff {set : ClauseSet} {scan : Scan}
    (faithful : Faithful set scan) :
    scan.conflict = none ↔ ∀ pair, pair.1 ≤ pair.2 → isConflict set pair = false := by
  constructor
  · exact faithful.free
  · intro every
    rw [Option.eq_none_iff_forall_ne_some]
    intro pair found
    obtain ⟨ordered, conflict⟩ := faithful.conflict pair found
    rw [every pair ordered] at conflict
    cases conflict

theorem lt_of_isConflict (set : ClauseSet) (pair : Pair) (conflict : isConflict set pair = true) :
    pair.1 < set.size ∧ pair.2 < set.size := by
  obtain ⟨clause, other, first, second, _⟩ := (isConflict_iff set pair).mp conflict
  exact ⟨set.get?_lt pair.1 clause first, set.get?_lt pair.2 other second⟩

theorem lt_of_resolvent? (set : ClauseSet) (pair : Pair) (entry : Staged)
    (offered : resolvent? set pair = some entry) : pair.1 < set.size ∧ pair.2 < set.size := by
  obtain ⟨_, clause, other, first, second, _⟩ := (resolvent?_eq_some_iff set pair entry).mp offered
  exact ⟨set.get?_lt pair.1 clause first, set.get?_lt pair.2 other second⟩

/-- Clauses which clash and are not complementary offer what they leave, if it is no
tautology and new. There is no choice then of what to resolve on. -/
theorem resolvent?_of_clash (set : ClauseSet) (pair : Pair) (clause other : Clause)
    (first : set.get? pair.1 = some clause) (second : set.get? pair.2 = some other)
    (apart : clause.isComplementaryTo other = false) (literal : Literal)
    (inside : literal ∈ clause.literals) (inverse : literal.negate ∈ other.literals)
    (proper : (Clause.resolveOn literal clause other).isTautology = false)
    (fresh : set.contains (Clause.resolveOn literal clause other) = false) :
    resolvent? set pair = some ⟨Clause.resolveOn literal clause other, pair⟩ := by
  have pivot := Clause.pivot?_eq_of_proper literal clause other inside inverse proper
  have able : clause.canResolveWith other = true := by
    rw [Clause.canResolveWith, pivot, apart]
    rfl
  rw [resolvent?_eq_some_iff]
  exact ⟨rfl, clause, other, first, second, able,
    Clause.resolveWith_eq_resolveOn clause other literal pivot, proper, fresh⟩

theorem pairsOf_pairwise (size : Nat) (rows : List Nat)
    (increasing : rows.Pairwise fun row later => row < later) :
    (pairsOf size rows).Pairwise fun pair later => toLex pair < toLex later := by
  simp only [Prod.Lex.toLex_lt_toLex, pairsOf, List.pairwise_flatMap]
  constructor
  · intro row _
    rw [rowPairs, List.pairwise_map]
    exact (List.pairwise_lt_range' 1 Nat.one_pos).imp fun less => Or.inr ⟨rfl, less⟩
  · refine increasing.imp ?_
    intro row later less pair member pair' member'
    rw [((mem_rowPairs _ _ _).mp member).1, ((mem_rowPairs _ _ _).mp member').1]
    exact Or.inl less

theorem finds_pairsOf (set : ClauseSet) (rows : List Nat) :
    Sweep.Finds set (pairsOf set.size rows) [] {}
      ((pairsOf set.size rows).foldl (Sweep.visit set) {}) := by
  apply Sweep.finds_foldl_visit
  · rfl
  · intro form
    simp
  · intro pair member
    have within := (mem_pairsOf set.size rows pair).mp member
    omega

section

variable {set : ClauseSet} {rows : List Nat} {done : Sweep}

theorem conflict_of_finds (finds : Sweep.Finds set (pairsOf set.size rows) [] {} done)
    (pair : Pair) (ended : done.conflict = some pair) :
    pair.1 ≤ pair.2 ∧ isConflict set pair = true := by
  rw [finds.conflict] at ended
  have member := (mem_pairsOf set.size rows pair).mp (List.mem_of_find?_eq_some ended)
  exact ⟨member.2.1, List.find?_some ended⟩

theorem free_of_finds (finds : Sweep.Finds set (pairsOf set.size rows) [] {} done)
    (ended : done.conflict = none) (pair : Pair) (row : pair.1 ∈ rows)
    (ordered : pair.1 ≤ pair.2) : isConflict set pair = false := by
  rw [finds.conflict, List.find?_eq_none] at ended
  rw [Bool.eq_false_iff]
  intro conflict
  have inside := (lt_of_isConflict set pair conflict).2
  exact ended pair ((mem_pairsOf set.size rows pair).mpr ⟨row, ordered, inside⟩) conflict

theorem staged_of_finds (finds : Sweep.Finds set (pairsOf set.size rows) [] {} done)
    (entry : Staged) (member : entry ∈ done.staged.toList) :
    entry.parents.1 ≤ entry.parents.2 ∧ resolvent? set entry.parents = some entry := by
  rw [finds.staged] at member
  have offered := (firsts_sublist _ _).subset member
  obtain ⟨pair, visited, made⟩ := List.mem_filterMap.mp offered
  have parents := ((resolvent?_eq_some_iff set pair entry).mp made).1
  have listed := (mem_pairsOf set.size rows pair).mp ((List.takeWhile_sublist _).subset visited)
  rw [parents]
  exact ⟨listed.2.1, made⟩

theorem takeWhile_of_free (finds : Sweep.Finds set (pairsOf set.size rows) [] {} done)
    (ended : done.conflict = none) :
    (pairsOf set.size rows).takeWhile (fun pair => !isConflict set pair) =
      pairsOf set.size rows := by
  rw [finds.conflict, List.find?_eq_none] at ended
  apply List.takeWhile_eq_self_iff.mpr
  intro pair member
  simpa using ended pair member

theorem complete_of_finds (finds : Sweep.Finds set (pairsOf set.size rows) [] {} done)
    (ended : done.conflict = none) (pair : Pair) (row : pair.1 ∈ rows)
    (ordered : pair.1 ≤ pair.2) (entry : Staged) (offered : resolvent? set pair = some entry) :
    ∃ kept ∈ done.staged.toList, kept.clause.canonical = entry.clause.canonical := by
  have inside := (lt_of_resolvent? set pair entry offered).2
  have listed := (mem_pairsOf set.size rows pair).mpr ⟨row, ordered, inside⟩
  rw [finds.staged, takeWhile_of_free finds ended]
  rcases exists_mem_firsts [] _ entry (List.mem_filterMap.mpr ⟨pair, listed, offered⟩) with
    known | kept
  · cases known
  · exact kept

end

theorem faithful_sequential (set : ClauseSet) : Faithful set (sequential set) := by
  have finds := finds_pairsOf set (List.range set.size)
  constructor
  · exact conflict_of_finds finds
  · intro ended pair ordered
    by_cases row : pair.1 < set.size
    · exact free_of_finds finds ended pair (List.mem_range.mpr row) ordered
    · rw [Bool.eq_false_iff]
      exact fun conflict => row (lt_of_isConflict set pair conflict).1
  · exact staged_of_finds finds
  · intro ended pair ordered entry offered
    have row := (lt_of_resolvent? set pair entry offered).1
    exact complete_of_finds finds ended pair (List.mem_range.mpr row) ordered entry offered
  · rw [sequential, finds.staged]
    exact firsts_pairwise [] _

end Clausal.Scan
