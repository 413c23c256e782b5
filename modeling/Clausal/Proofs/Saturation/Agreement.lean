import Clausal.Proofs.Saturation.Growth
import Clausal.Proofs.Saturation.Interleaving
import Clausal.Proofs.Saturation.Merge

set_option autoImplicit false

namespace Clausal

/-- Clocks which are the same to the given time limit, as any two are if there is none. -/
def Environment.SameTime (limit : Option Nat) (environment other : Environment) : Prop :=
  ∀ rounds, limit.any (· ≤ environment.clock rounds) = limit.any (· ≤ other.clock rounds)

namespace Engine

inductive Call.Matches (limit : Option Nat) : Call → Call → Prop where
  | step (environment other : Environment) : Matches limit (.step environment) (.step other)
  | refute (environment other : Environment) (times : environment.SameTime limit other) :
      Matches limit (.refute environment) (.refute other)

/-- Runs which differ by their workers, and if they have come to a conflict, by the
conflict and the pairs checked in the round of the conflict. -/
structure Alike (engine other : Engine) : Prop where
  config : other.config = { engine.config with workers := other.config.workers }
  set : other.set = engine.set
  derivation : other.derivation = engine.derivation
  report : other.report = engine.report
  rounds : other.rounds = engine.rounds
  resolvents : other.resolvents = engine.resolvents
  pairs : engine.report ≠ .conflict → other.pairs = engine.pairs
  exhausted : other.exhausted = engine.exhausted

theorem alike_start (config : Config) (workers : Nat) (set : ClauseSet) :
    Alike (start config set) (start { config with workers } set) := by
  constructor <;> intros <;> rfl

/-- Whoever makes it, a scan without a conflict is the scan in order. -/
theorem nextScan_eq_sequential (environment : Environment) (engine : Engine)
    (free : (engine.nextScan environment).conflict = none) :
    (engine.nextScan environment).staged = (Scan.sequential engine.set).staged ∧
      (engine.nextScan environment).pairs = (Scan.sequential engine.set).pairs := by
  unfold nextScan scan at free ⊢
  split
  · rename_i several
    rw [if_pos several] at free
    exact Scan.parallel_eq_sequential _ _ _ free
  · exact ⟨rfl, rfl⟩

variable {engine other : Engine}

theorem report_ne_conflict (active : engine.state = .active) : engine.report ≠ .conflict := by
  rw [(report_eq_unknown_iff engine).mpr active]
  exact nofun

theorem Alike.active_iff (alike : Alike engine other) :
    other.state = .active ↔ engine.state = .active := by
  rw [← report_eq_unknown_iff, ← report_eq_unknown_iff, alike.report]

/-- Two scans of one set find a conflict or neither does, and then they are the same. -/
theorem Alike.nextScan (alike : Alike engine other) (environment environment' : Environment) :
    ((other.nextScan environment').conflict = none ↔
        (engine.nextScan environment).conflict = none) ∧
      ((engine.nextScan environment).conflict = none →
        (other.nextScan environment').staged = (engine.nextScan environment).staged ∧
          (other.nextScan environment').pairs = (engine.nextScan environment).pairs) := by
  have same : (other.nextScan environment').conflict = none ↔
      (engine.nextScan environment).conflict = none := by
    rw [(faithful_nextScan environment' other).conflict_eq_none_iff,
      (faithful_nextScan environment engine).conflict_eq_none_iff, alike.set]
  refine ⟨same, fun free => ?_⟩
  obtain ⟨staged, pairs⟩ := nextScan_eq_sequential environment engine free
  obtain ⟨staged', pairs'⟩ := nextScan_eq_sequential environment' other (same.mpr free)
  rw [staged, staged', pairs, pairs', alike.set]
  exact ⟨rfl, rfl⟩

theorem Alike.addStaged (alike : Alike engine other) (entry : Staged) :
    Alike (engine.addStaged entry) (other.addStaged entry) := by
  unfold Engine.addStaged
  rw [alike.set]
  split
  · exact alike
  · exact { alike with
      set := rfl
      derivation := by rw [alike.derivation, alike.rounds]
      resolvents := by rw [alike.resolvents] }

theorem Alike.foldl_addStaged (alike : Alike engine other) (staged : List Staged) :
    Alike (staged.foldl Engine.addStaged engine) (staged.foldl Engine.addStaged other) := by
  induction staged generalizing engine other with
  | nil => exact alike
  | cons entry rest ih => exact ih (alike.addStaged entry)

theorem Alike.step (alike : Alike engine other) (environment environment' : Environment) :
    Alike (engine.step environment) (other.step environment') := by
  by_cases active : engine.state = .active
  · have active' := alike.active_iff.mpr active
    obtain ⟨conflict, free⟩ := alike.nextScan environment environment'
    rw [step_of_active environment engine active, step_of_active environment' other active']
    cases found : (engine.nextScan environment).conflict with
    | some pair =>
        have found' : (other.nextScan environment').conflict ≠ none := by
          rw [ne_eq, conflict, found]
          exact Option.some_ne_none pair
        obtain ⟨pair', found'⟩ := Option.ne_none_iff_exists'.mp found'
        rw [found']
        exact {
          config := alike.config
          set := alike.set
          derivation := alike.derivation
          report := rfl
          rounds := congrArg (· + 1) alike.rounds
          resolvents := alike.resolvents
          pairs := fun impossible => absurd rfl impossible
          exhausted := alike.exhausted }
    | none =>
        rw [conflict.mpr found]
        obtain ⟨staged, pairs⟩ := free found
        have unfinished := report_ne_conflict active
        have scanned : Alike (engine.scanned (engine.nextScan environment))
            (other.scanned (other.nextScan environment')) :=
          { alike with
            rounds := congrArg (· + 1) alike.rounds
            pairs := fun _ => by
              rw [Engine.scanned, Engine.scanned, alike.pairs unfinished, pairs] }
        dsimp only
        rw [staged]
        split
        · exact { scanned with
            report := rfl
            pairs := fun _ => scanned.pairs unfinished }
        · exact scanned.foldl_addStaged _
  · have ended := fun active' => active (alike.active_iff.mp active')
    rw [step_of_ne_active environment engine active, step_of_ne_active environment' other ended]
    exact alike

theorem Alike.exceeded (alike : Alike engine other) {environment environment' : Environment}
    (times : environment.SameTime engine.config.timeLimit environment') :
    other.exceeded environment' = engine.exceeded environment := by
  unfold Engine.exceeded
  rw [alike.config, alike.rounds, alike.set]
  simp only [times engine.rounds]

theorem Alike.run (alike : Alike engine other) {environment environment' : Environment}
    (times : environment.SameTime engine.config.timeLimit environment') (rounds : Nat) :
    Alike (engine.run environment rounds) (other.run environment' rounds) := by
  induction rounds generalizing engine other with
  | zero => exact alike
  | succ rounds ih =>
      by_cases active : engine.state = .active
      · have config := (unchanged_of_round (round_step environment engine)).1
        have unfinished := report_ne_conflict active
        rw [Engine.run, Engine.run, active, alike.active_iff.mpr active, alike.exceeded times]
        cases engine.exceeded environment with
        | some budget =>
            exact { alike with
              report := rfl
              pairs := fun _ => alike.pairs unfinished
              exhausted := rfl }
        | none => exact ih (alike.step environment environment') (config ▸ times)
      · have ended := fun active' => active (alike.active_iff.mp active')
        rw [run_of_ne_active _ _ _ active, run_of_ne_active _ _ _ ended]
        exact alike

theorem Alike.call (alike : Alike engine other) {next next' : Call}
    (same : next.Matches engine.config.timeLimit next') :
    Alike (engine.call next) (other.call next') := by
  cases same with
  | step environment environment' => exact alike.step environment environment'
  | refute environment environment' times =>
      have bound : other.roundBound = engine.roundBound := by rw [roundBound, roundBound, alike.set]
      rw [Engine.call, Engine.call, refute, refute, bound]
      exact alike.run times _

theorem Alike.calls (alike : Alike engine other) {made made' : List Call}
    (same : List.Forall₂ (Call.Matches engine.config.timeLimit) made made') :
    Alike (engine.calls made) (other.calls made') := by
  generalize limit : engine.config.timeLimit = given at same
  induction same generalizing engine other with
  | nil => exact alike
  | cons first _ ih =>
      refine ih (alike.call (limit ▸ first)) ?_
      rw [show engine.call _ = engine.calls [_] from rfl, config_calls, limit]

theorem complementary_of_conflict {set : ClauseSet} {scan : Scan} (faithful : scan.Faithful set)
    (first second : Nat) (found : scan.conflict = some (first, second)) :
    first < second ∧ ∃ clause other, set.get? first = some clause ∧
      set.get? second = some other ∧ clause.isComplementaryTo other = true := by
  obtain ⟨ordered, conflict⟩ := faithful.conflict (first, second) found
  obtain ⟨clause, other, left, right, complementary⟩ :=
    (Scan.isConflict_iff set (first, second)).mp conflict
  refine ⟨Nat.lt_of_le_of_ne ordered ?_, clause, other, left, right, complementary⟩
  rintro rfl
  have same : clause = other := Option.some.inj (left.symm.trans right)
  rw [same, Clause.isComplementaryTo_self] at complementary
  cases complementary

/-- However its workers are interleaved, a parallel scan has a conflict where the scan
in order has one, and is the scan in order where it has none; these interleavings
are what the schedules stand for; and runs whose calls differ by workers are alike. -/
theorem workers_agree (set : ClauseSet) :
    (∀ workers scan, Scan.Outcome set workers scan →
        (scan.conflict = none ↔ (Scan.sequential set).conflict = none) ∧
        (∀ first second, scan.conflict = some (first, second) →
          first < second ∧ ∃ clause other, set.get? first = some clause ∧
            set.get? second = some other ∧ clause.isComplementaryTo other = true) ∧
        (scan.conflict = none → scan.staged = (Scan.sequential set).staged ∧
          scan.pairs = (Scan.sequential set).pairs)) ∧
      (∀ workers scan, Scan.Outcome set workers scan ↔
        ∃ schedule, scan = Scan.parallel set workers schedule) ∧
      ∀ config workers made made', List.Forall₂ (Call.Matches config.timeLimit) made made' →
        Alike ((start config set).calls made)
          ((start { config with workers } set).calls made') := by
  refine ⟨?_, Scan.outcome_iff set, ?_⟩
  · intro workers scan outcome
    obtain ⟨schedule, rfl⟩ := (Scan.outcome_iff set workers scan).mp outcome
    have faithful := Scan.faithful_parallel set workers schedule
    refine ⟨?_, complementary_of_conflict faithful,
      Scan.parallel_eq_sequential set workers schedule⟩
    rw [faithful.conflict_eq_none_iff, (Scan.faithful_sequential set).conflict_eq_none_iff]
  · intro config workers made made' same
    exact (alike_start config workers set).calls same

/-- Of two conflicts the second is found first if its worker is; and a resolvent which two
workers have staged is kept for the earlier pair. -/
theorem workers_agree_of_late_start :
    let refuted := ClauseSet.ofList ([[⟨"p", false⟩], [⟨"q", false⟩], [⟨"p", true⟩],
      [⟨"q", true⟩]].map Clause.ofList)
    let merged := ClauseSet.ofList ([[⟨"p", false⟩, ⟨"r", false⟩], [⟨"r", false⟩, ⟨"q", false⟩],
      [⟨"p", true⟩], [⟨"q", true⟩]].map Clause.ofList)
    let late : Schedule := [⟨1, false⟩]
    let once : List Call := [.refute {}]
    let again : List Call := [.refute { clock := id, schedule := fun _ => late }]
    Scan.Outcome refuted 2 (Scan.parallel refuted 2 late) ∧
      (Scan.sequential refuted).conflict = some (0, 2) ∧
      (Scan.parallel refuted 2 late).conflict = some (1, 3) ∧
      (∃ clause other, refuted.get? 1 = some clause ∧ refuted.get? 3 = some other ∧
        clause.isComplementaryTo other = true) ∧
      (Scan.parallel merged 2 late).conflict = none ∧
      (Scan.parallel merged 2 late).staged = #[⟨⟨[⟨"r", false⟩]⟩, (0, 2)⟩] ∧
      (Scan.parallel merged 2 late).staged = (Scan.sequential merged).staged ∧
      List.Forall₂ (Call.Matches none) once again ∧
      Alike ((start {} merged).calls once) ((start { workers := 2 } merged).calls again) := by
  intro refuted merged late once again
  have agree := workers_agree refuted
  have agree' := workers_agree merged
  have outcome := (agree.2.1 2 _).mpr ⟨late, rfl⟩
  have outcome' := (agree'.2.1 2 _).mpr ⟨late, rfl⟩
  have found : (Scan.parallel refuted 2 late).conflict = some (1, 3) := by decide
  have free : (Scan.parallel merged 2 late).conflict = none := by decide
  have matched : List.Forall₂ (Call.Matches none) once again :=
    .cons (.refute _ _ fun _ => rfl) .nil
  exact ⟨outcome, by decide, found, ((agree.1 2 _ outcome).2.1 1 3 found).2, free, by decide,
    ((agree'.1 2 _ outcome').2.2 free).1, matched, agree'.2.2 {} 2 once again matched⟩

end Engine
end Clausal
