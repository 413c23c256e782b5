import Clausal.Proofs.Saturation.Exactness
import Clausal.Proofs.Saturation.Limits

set_option autoImplicit false

namespace Clausal

/-- What two clauses leave is staged once at most. -/
theorem Scan.Faithful.eq_of_parents_eq {set : ClauseSet} {scan : Scan}
    (faithful : scan.Faithful set) (entry other : Staged) (member : entry ∈ scan.staged.toList)
    (member' : other ∈ scan.staged.toList) (same : entry.parents = other.parents) :
    entry = other := by
  have offered := (faithful.staged entry member).2
  rw [same, (faithful.staged other member').2, Option.some.injEq] at offered
  exact offered.symm

theorem Scan.Faithful.length_staged_le {set : ClauseSet} {scan : Scan}
    (faithful : scan.Faithful set) (valid : set.Valid) :
    scan.staged.toList.length ≤ set.size * (set.size - 1) / 2 := by
  let place (entry : Staged) : (_ : Nat) × Nat := ⟨entry.parents.2, entry.parents.1⟩
  have distinct : (scan.staged.toList.map place).Nodup := by
    refine List.pairwise_map.mpr (faithful.apart.imp_of_mem ?_)
    intro entry other member member' unlike same
    simp only [place, Sigma.mk.injEq, heq_eq_eq] at same
    have equal := faithful.eq_of_parents_eq entry other member member' (Prod.ext same.2 same.1)
    exact unlike (congrArg (fun entry => entry.clause.canonical) equal)
  have within : (scan.staged.toList.map place).toFinset ⊆
      (Finset.range set.size).sigma fun later => Finset.range later := by
    intro pair member
    obtain ⟨entry, listed, rfl⟩ := List.mem_map.mp (List.mem_toFinset.mp member)
    obtain ⟨less, _, _, second, _, right, _⟩ := faithful.parents valid entry listed
    rw [Finset.mem_sigma, Finset.mem_range, Finset.mem_range]
    exact ⟨set.get?_lt _ second right, less⟩
  calc
    scan.staged.toList.length = (scan.staged.toList.map place).toFinset.card := by
      rw [List.toFinset_card_of_nodup distinct, List.length_map]
    _ ≤ ((Finset.range set.size).sigma fun later => Finset.range later).card :=
      Finset.card_le_card within
    _ = ∑ later ∈ Finset.range set.size, later := by simp [Finset.card_sigma]
    _ = set.size * (set.size - 1) / 2 := Finset.sum_range_id set.size

namespace Engine

theorem size_le_of_round {engine later : Engine} (round : Round engine later)
    (valid : engine.set.Valid) :
    later.set.size ≤ engine.set.size + engine.set.size * (engine.set.size - 1) / 2 := by
  cases round with
  | finished => exact Nat.le_add_right _ _
  | conflict => exact Nat.le_add_right _ _
  | saturated => exact Nat.le_add_right _ _
  | grown scan active faithful =>
      rw [ClauseSet.size_of_append (toList_of_faithful engine scan faithful), List.length_map]
      exact Nat.add_le_add_left (faithful.length_staged_le valid) _

theorem size_le_of_exceeded_eq_none {environment : Environment} {engine : Engine} {limit : Nat}
    (limited : engine.config.clauseLimit = some limit)
    (free : engine.exceeded environment = none) : engine.set.size ≤ limit := by
  unfold exceeded at free
  split at free
  · cases free
  · split at free
    · cases free
    · split at free
      · cases free
      · rename_i few
        simpa [limited] using few

/-- The most clauses after a round which begins within the limit. -/
def leak (limit : Nat) : Nat :=
  limit + limit * (limit - 1) / 2

theorem leak_mono {size limit : Nat} (small : size ≤ limit) : leak size ≤ leak limit :=
  Nat.add_le_add small
    (Nat.div_le_div_right (Nat.mul_le_mul small (Nat.sub_le_sub_right small 1)))

/-- What refutations keep under a limit of the clauses, from a set of the given size. -/
structure Within (initial limit : Nat) (engine : Engine) : Prop where
  limited : engine.config.clauseLimit = some limit
  valid : engine.set.Valid
  size_le : engine.set.size ≤ max initial (leak limit)
  ended : engine.state ≠ .active → engine.set.size ≤ limit

section

variable {initial limit : Nat} {engine : Engine}

theorem Within.step (within : engine.Within initial limit) (environment : Environment)
    (small : engine.set.size ≤ limit) : (engine.step environment).Within initial limit where
  limited := by
    rw [(unchanged_of_round (round_step environment engine)).1]
    exact within.limited
  valid := valid_of_round within.valid (round_step environment engine)
  size_le := by
    have grown : (engine.step environment).set.size ≤ leak engine.set.size :=
      size_le_of_round (round_step environment engine) within.valid
    exact (grown.trans (leak_mono small)).trans (Nat.le_max_right _ _)
  ended finished := by
    rw [set_eq_of_round (round_step environment engine) finished]
    exact small

theorem Within.run (within : engine.Within initial limit) (environment : Environment)
    (rounds : Nat) : (engine.run environment rounds).Within initial limit := by
  induction rounds generalizing engine with
  | zero => exact within
  | succ rounds ih =>
      rw [Engine.run]
      split
      · split
        · exact { within with }
        · rename_i free
          exact ih (within.step environment (size_le_of_exceeded_eq_none within.limited free))
      · exact within

theorem Within.refutes (within : engine.Within initial limit) (environments : List Environment) :
    (engine.calls (environments.map .refute)).Within initial limit := by
  induction environments generalizing engine with
  | nil => exact within
  | cons environment rest ih => exact ih (within.run environment engine.roundBound)

end

theorem within_start (config : Config) (limit : Nat) (limited : config.clauseLimit = some limit)
    (set : ClauseSet) (valid : set.Valid) : (start config set).Within set.size limit where
  limited
  valid
  size_le := Nat.le_max_left _ _
  ended finished := absurd rfl finished

/-- A set which is refuted any number of times outgrows the limit by what one round adds, if it
was not too large before; and where the refutation is not left open, it has not outgrown it. -/
theorem size_le_after_refutes (clauses : List Clause) (config : Config) (limit : Nat)
    (limited : config.clauseLimit = some limit) (environments : List Environment) :
    let initial := start config (.ofList clauses)
    let after := initial.calls (environments.map .refute)
    after.set.size ≤ max initial.set.size (limit + limit * (limit - 1) / 2) ∧
      ∀ environment, (after.refute environment).report = .conflict ∨
        (after.refute environment).report = .saturated →
          (after.refute environment).set.size ≤ limit := by
  intro initial after
  have begun : initial.Within initial.set.size limit :=
    within_start config limit limited _ (ClauseSet.valid_ofList clauses)
  have within : after.Within initial.set.size limit := begun.refutes environments
  refine ⟨within.size_le, fun environment decided => ?_⟩
  have last : (after.refute environment).Within initial.set.size limit :=
    within.run environment after.roundBound
  apply last.ended
  rw [ne_eq, ← report_eq_unknown_iff]
  rcases decided with conflict | saturated
  · simp [conflict]
  · simp [saturated]

/-- Three clauses may be within a limit of three, and each two of them leave a new one. Under
the same limit `p` and `!p || q` come to `q` and no further. -/
theorem size_le_after_refutes_three :
    let config : Config := { clauseLimit := some 3 }
    let clashing : List Clause := [⟨[⟨"p", false⟩, ⟨"q", false⟩, ⟨"a", false⟩]⟩,
      ⟨[⟨"p", true⟩, ⟨"r", false⟩, ⟨"b", false⟩]⟩, ⟨[⟨"q", true⟩, ⟨"r", true⟩, ⟨"c", false⟩]⟩]
    let implied : List Clause := [⟨[⟨"p", false⟩]⟩, ⟨[⟨"p", true⟩, ⟨"q", false⟩]⟩]
    let leaked := (start config (.ofList clashing)).calls ([{}, {}].map .refute)
    let settled := (start config (.ofList implied)).refute {}
    config.clauseLimit = some 3 ∧
      leaked.set.size = 6 ∧
      leaked.set.size ≤ max (start config (.ofList clashing)).set.size (3 + 3 * (3 - 1) / 2) ∧
      settled.report = .saturated ∧ settled.set.size ≤ 3 := by
  intro config clashing implied leaked settled
  have bounded := (size_le_after_refutes clashing config 3 rfl [{}, {}]).1
  have saturated : settled.report = .saturated := by decide
  have kept := (size_le_after_refutes implied config 3 rfl []).2 {} (Or.inr saturated)
  exact ⟨rfl, by decide, bounded, saturated, kept⟩

end Engine
end Clausal
