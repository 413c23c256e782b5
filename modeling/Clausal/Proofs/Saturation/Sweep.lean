import Clausal.Proofs.ClauseSet.Index
import Clausal.Saturation.Workers

set_option autoImplicit false

namespace Clausal

namespace Scan

/-- Whether the clauses of a pair of keys are complementary. -/
def isConflict (set : ClauseSet) (pair : Pair) : Bool :=
  match set.get? pair.1, set.get? pair.2 with
  | some clause, some other => clause.isComplementaryTo other
  | _, _ => false

/-- What a pair of keys has to offer to the set, whatever else is staged. -/
def resolvent? (set : ClauseSet) (pair : Pair) : Option Staged :=
  match set.get? pair.1, set.get? pair.2 with
  | some clause, some other => (Sweep.fresh? set ∅ clause other).map (⟨·, pair⟩)
  | _, _ => none

theorem isConflict_iff (set : ClauseSet) (pair : Pair) :
    isConflict set pair = true ↔ ∃ clause other, set.get? pair.1 = some clause ∧
      set.get? pair.2 = some other ∧ clause.isComplementaryTo other = true := by
  unfold isConflict
  split
  · rename_i clause other first second
    simp [first, second]
  · rename_i missing
    simp only [Bool.false_eq_true, false_iff]
    intro ⟨clause, other, first, second, _⟩
    exact missing clause other first second

theorem resolvent?_eq_some_iff (set : ClauseSet) (pair : Pair) (entry : Staged) :
    resolvent? set pair = some entry ↔ entry.parents = pair ∧
      ∃ clause other, set.get? pair.1 = some clause ∧ set.get? pair.2 = some other ∧
        clause.canResolveWith other = true ∧ clause.resolveWith other = entry.clause ∧
          entry.clause.isTautology = false ∧ set.contains entry.clause = false := by
  unfold resolvent?
  split
  · rename_i clause other first second
    simp only [Option.map_eq_some_iff, Sweep.fresh?_eq_some, first, second, Option.some.injEq]
    constructor
    · intro ⟨resolvent, ⟨able, resolved, proper, unknown, _⟩, made⟩
      rw [← made]
      exact ⟨rfl, clause, other, rfl, rfl, able, resolved, proper, unknown⟩
    · intro ⟨parents, _, _, rfl, rfl, able, resolved, proper, unknown⟩
      exact ⟨entry.clause, ⟨able, resolved, proper, unknown, by simp⟩, by rw [← parents]⟩
  · rename_i missing
    simp only [reduceCtorEq, false_iff]
    intro ⟨_, clause, other, first, second, _⟩
    exact missing clause other first second

/-- The entries of a canonical form which is neither given nor that of an entry before. -/
def firsts : List (List Literal) → List Staged → List Staged
  | _, [] => []
  | seen, entry :: rest =>
      if entry.clause.canonical ∈ seen then firsts seen rest
      else entry :: firsts (entry.clause.canonical :: seen) rest

theorem firsts_sublist (seen : List (List Literal)) (staged : List Staged) :
    (firsts seen staged).Sublist staged := by
  induction staged generalizing seen with
  | nil => exact .slnil
  | cons entry rest ih =>
      rw [firsts]
      split
      · exact (ih seen).cons entry
      · exact (ih _).cons_cons entry

theorem exists_mem_firsts (seen : List (List Literal)) (staged : List Staged) (entry : Staged)
    (member : entry ∈ staged) : entry.clause.canonical ∈ seen ∨
      ∃ kept ∈ firsts seen staged, kept.clause.canonical = entry.clause.canonical := by
  induction staged generalizing seen with
  | nil => cases member
  | cons head rest ih =>
      rw [firsts]
      rcases List.mem_cons.mp member with same | later
      · rw [same]
        split
        · rename_i known
          exact Or.inl known
        · exact Or.inr ⟨head, List.mem_cons_self, rfl⟩
      · split
        · exact ih seen later
        · rcases ih (head.clause.canonical :: seen) later with known | ⟨kept, inside, same⟩
          · rcases List.mem_cons.mp known with same | known
            · exact Or.inr ⟨head, List.mem_cons_self, same.symm⟩
            · exact Or.inl known
          · exact Or.inr ⟨kept, List.mem_cons_of_mem head inside, same⟩

theorem not_mem_of_mem_firsts (seen : List (List Literal)) (staged : List Staged)
    (entry : Staged) (member : entry ∈ firsts seen staged) : entry.clause.canonical ∉ seen := by
  induction staged generalizing seen with
  | nil => cases member
  | cons head rest ih =>
      rw [firsts] at member
      split at member
      · exact ih seen member
      · rename_i unknown
        rcases List.mem_cons.mp member with same | later
        · rw [same]
          exact unknown
        · have outside := ih _ later
          exact fun known => outside (List.mem_cons_of_mem _ known)

theorem firsts_pairwise (seen : List (List Literal)) (staged : List Staged) :
    (firsts seen staged).Pairwise fun entry other =>
      entry.clause.canonical ≠ other.clause.canonical := by
  induction staged generalizing seen with
  | nil => exact .nil
  | cons head rest ih =>
      rw [firsts]
      split
      · exact ih seen
      · refine List.pairwise_cons.mpr ⟨?_, ih _⟩
        intro other later same
        have outside := not_mem_of_mem_firsts _ rest other later
        rw [← same] at outside
        exact outside List.mem_cons_self

end Scan

namespace Sweep

/-- What is already seen only withholds resolvents. -/
theorem fresh?_eq_filter (set : ClauseSet) (seen : Std.TreeSet (List Literal))
    (clause other : Clause) :
    fresh? set seen clause other = (fresh? set ∅ clause other).filter
      fun resolvent => !seen.contains resolvent.canonical := by
  apply Option.ext
  intro resolvent
  simp only [Option.filter_eq_some_iff, fresh?_eq_some, Std.TreeSet.contains_emptyc, and_true,
    Bool.not_eq_true']
  constructor
  · intro ⟨able, resolved, proper, unknown, unseen⟩
    exact ⟨⟨able, resolved, proper, unknown⟩, unseen⟩
  · intro ⟨⟨able, resolved, proper, unknown⟩, unseen⟩
    exact ⟨able, resolved, proper, unknown, unseen⟩

/-- The canonical forms which are withheld. -/
def Sees (sweep : Sweep) (forms : List (List Literal)) : Prop :=
  ∀ form, sweep.seen.contains form = true ↔ form ∈ forms

theorem foldl_visit_of_conflict (set : ClauseSet) (pairs : List Pair) (sweep : Sweep)
    (ended : sweep.conflict ≠ none) : pairs.foldl (visit set) sweep = sweep := by
  induction pairs with
  | nil => rfl
  | cons pair rest ih => rw [List.foldl_cons, visit_of_conflict set sweep pair ended, ih]

theorem visit_cases (set : ClauseSet) (sweep : Sweep) (pair : Pair) (forms : List (List Literal))
    (going : sweep.conflict = none) (sees : sweep.Sees forms)
    (inside : pair.1 < set.size ∧ pair.2 < set.size) :
    (Scan.isConflict set pair = true ∧
        sweep.visit set pair = { sweep with pairs := sweep.pairs + 1, conflict := some pair }) ∨
      (Scan.isConflict set pair = false ∧ (sweep.visit set pair).conflict = none ∧
        (sweep.visit set pair).pairs = sweep.pairs + 1 ∧
        ((∃ entry, Scan.resolvent? set pair = some entry ∧ entry.clause.canonical ∉ forms ∧
            (sweep.visit set pair).staged = sweep.staged.push entry ∧
            (sweep.visit set pair).Sees (entry.clause.canonical :: forms)) ∨
          ((∀ entry, Scan.resolvent? set pair = some entry → entry.clause.canonical ∈ forms) ∧
            (sweep.visit set pair).staged = sweep.staged ∧
            (sweep.visit set pair).Sees forms))) := by
  obtain ⟨clause, first⟩ := set.exists_get? pair.1 inside.1
  obtain ⟨other, second⟩ := set.exists_get? pair.2 inside.2
  have visited : sweep.visit set pair = sweep.check set pair clause other := by
    rw [visit, going, first, second]
  have conflict : Scan.isConflict set pair = clause.isComplementaryTo other := by
    rw [Scan.isConflict, first, second]
  have offered : Scan.resolvent? set pair = (fresh? set ∅ clause other).map (⟨·, pair⟩) := by
    rw [Scan.resolvent?, first, second]
  rw [visited, conflict, offered, check]
  cases clause.isComplementaryTo other with
  | true => exact Or.inl ⟨rfl, rfl⟩
  | false =>
      refine Or.inr ⟨rfl, ?_⟩
      simp only [Bool.false_eq_true, ↓reduceIte, fresh?_eq_filter set sweep.seen]
      cases fresh? set ∅ clause other with
      | none =>
          refine ⟨going, rfl, Or.inr ⟨?_, rfl, sees⟩⟩
          intro entry impossible
          cases impossible
      | some resolvent =>
          by_cases known : resolvent.canonical ∈ forms
          · have withheld : sweep.seen.contains resolvent.canonical = true := (sees _).mpr known
            simp only [Option.filter_some, withheld, Bool.not_true, Bool.false_eq_true, ↓reduceIte]
            refine ⟨going, trivial, Or.inr ⟨?_, trivial, sees⟩⟩
            intro entry made
            cases made
            exact known
          · have unseen : sweep.seen.contains resolvent.canonical = false :=
              Bool.eq_false_iff.mpr fun seen => known ((sees _).mp seen)
            simp only [Option.filter_some, unseen, Bool.not_false, ↓reduceIte]
            refine ⟨going, trivial, Or.inl ⟨⟨resolvent, pair⟩, rfl, known, rfl, ?_⟩⟩
            intro form
            rw [Std.TreeSet.contains_insert, Bool.or_eq_true, beq_iff_eq, Std.compare_eq_iff_eq,
              List.mem_cons, sees form]
            exact or_congr_left eq_comm

/-- What a sweep has found at the end of a list of pairs, the given forms withheld. -/
structure Finds (set : ClauseSet) (pairs : List Pair) (forms : List (List Literal))
    (sweep done : Sweep) : Prop where
  conflict : done.conflict = pairs.find? (Scan.isConflict set)
  staged : done.staged.toList = sweep.staged.toList ++ Scan.firsts forms
    ((pairs.takeWhile fun pair => !Scan.isConflict set pair).filterMap (Scan.resolvent? set))
  pairs : done.pairs = sweep.pairs +
    min ((pairs.takeWhile fun pair => !Scan.isConflict set pair).length + 1) pairs.length

theorem finds_foldl_visit (set : ClauseSet) (pairs : List Pair) (sweep : Sweep)
    (forms : List (List Literal)) (going : sweep.conflict = none) (sees : sweep.Sees forms)
    (inside : ∀ pair ∈ pairs, pair.1 < set.size ∧ pair.2 < set.size) :
    Finds set pairs forms sweep (pairs.foldl (visit set) sweep) := by
  induction pairs generalizing sweep forms with
  | nil =>
      refine ⟨going, ?_, ?_⟩
      · simp [Scan.firsts]
      · simp
  | cons pair rest ih =>
      obtain ⟨here, later⟩ := List.forall_mem_cons.mp inside
      rw [List.foldl_cons]
      rcases visit_cases set sweep pair forms going sees here with
        ⟨conflict, visited⟩ | ⟨free, going, counted, found⟩
      · rw [visited, foldl_visit_of_conflict set rest _ (by simp)]
        refine ⟨?_, ?_, ?_⟩
        · simp [conflict]
        · simp [conflict, Scan.firsts]
        · simp [conflict]
      · rcases found with ⟨entry, offered, unknown, staged, sees⟩ | ⟨known, staged, sees⟩
        · have rested := ih (sweep.visit set pair) _ going sees later
          refine ⟨?_, ?_, ?_⟩
          · rw [rested.conflict, List.find?_cons_of_neg (by simp [free])]
          · rw [rested.staged, staged]
            simp [free, offered, Scan.firsts, unknown]
          · rw [rested.pairs, counted]
            simp [free]
            omega
        · have rested := ih (sweep.visit set pair) _ going sees later
          refine ⟨?_, ?_, ?_⟩
          · rw [rested.conflict, List.find?_cons_of_neg (by simp [free])]
          · rw [rested.staged, staged]
            cases offered : Scan.resolvent? set pair with
            | none => simp [free, offered]
            | some entry => simp [free, offered, Scan.firsts, known entry offered]
          · rw [rested.pairs, counted]
            simp [free]
            omega

end Sweep
end Clausal
