import Clausal.Proofs.Saturation.Workers
import Clausal.Saturation.Engine

set_option autoImplicit false

namespace Clausal.Engine

theorem faithful_scan (environment : Environment) (engine : Engine) :
    Scan.Faithful engine.set (engine.scan environment) := by
  unfold scan
  split
  · exact Scan.faithful_parallel _ _ _
  · exact Scan.faithful_sequential _

/-- A run once the scan of a round is over, before what it has found is taken up. -/
def scanned (engine : Engine) (scan : Scan) : Engine :=
  { engine with rounds := engine.rounds + 1, pairs := engine.pairs + scan.pairs }

def nextScan (environment : Environment) (engine : Engine) : Scan :=
  scan environment { engine with rounds := engine.rounds + 1 }

theorem faithful_nextScan (environment : Environment) (engine : Engine) :
    Scan.Faithful engine.set (engine.nextScan environment) :=
  faithful_scan environment { engine with rounds := engine.rounds + 1 }

theorem step_of_active (environment : Environment) (engine : Engine)
    (active : engine.state = .active) :
    engine.step environment =
      match (engine.nextScan environment).conflict with
      | some pair =>
          { engine.scanned (engine.nextScan environment) with state := .conflict pair }
      | none =>
          if (engine.nextScan environment).staged.toList = [] then
            { engine.scanned (engine.nextScan environment) with state := .saturated }
          else (engine.nextScan environment).staged.toList.foldl addStaged
            (engine.scanned (engine.nextScan environment)) := by
  unfold step
  split
  · simp only [Array.isEmpty_iff, ← Array.foldl_toList, Array.toList_eq_nil_iff]
    rfl
  · contradiction

/-- What a round can do. -/
inductive Round (engine : Engine) : Engine → Prop where
  | finished (ended : engine.state ≠ .active) : Round engine engine
  | conflict (scan : Scan) (pair : Pair) (active : engine.state = .active)
      (faithful : scan.Faithful engine.set) (found : scan.conflict = some pair) :
      Round engine { engine.scanned scan with state := .conflict pair }
  | saturated (scan : Scan) (active : engine.state = .active)
      (faithful : scan.Faithful engine.set) (free : scan.conflict = none)
      (idle : scan.staged.toList = []) :
      Round engine { engine.scanned scan with state := .saturated }
  | grown (scan : Scan) (active : engine.state = .active)
      (faithful : scan.Faithful engine.set) (free : scan.conflict = none)
      (busy : scan.staged.toList ≠ []) :
      Round engine (scan.staged.toList.foldl addStaged (engine.scanned scan))

theorem round_step (environment : Environment) (engine : Engine) :
    Round engine (engine.step environment) := by
  by_cases active : engine.state = .active
  · have faithful := faithful_nextScan environment engine
    rw [step_of_active environment engine active]
    split
    · rename_i pair found
      exact .conflict _ pair active faithful found
    · rename_i free
      split
      · rename_i idle
        exact .saturated _ active faithful free idle
      · rename_i busy
        exact .grown _ active faithful free busy
  · rw [step_of_ne_active environment engine active]
    exact .finished active

theorem report_eq_conflict_iff (engine : Engine) :
    engine.report = .conflict ↔ ∃ pair, engine.state = .conflict pair := by
  unfold report
  cases engine.state <;> simp [State.report]

theorem report_eq_saturated_iff (engine : Engine) :
    engine.report = .saturated ↔ engine.state = .saturated := by
  unfold report
  cases engine.state <;> simp [State.report]

theorem report_eq_unknown_iff (engine : Engine) :
    engine.report = .unknown ↔ engine.state = .active := by
  unfold report
  cases engine.state <;> simp [State.report]

theorem addStaged_cases (engine : Engine) (staged : Staged) :
    ((staged.clause.isTautology = true ∨ engine.set.contains staged.clause = true) ∧
        engine.addStaged staged = engine) ∨
      (staged.clause.isTautology = false ∧ engine.set.contains staged.clause = false ∧
        engine.addStaged staged =
          { engine with
            set := (engine.set.insert staged.clause).2
            derivation := engine.derivation.addResolvent engine.set.size staged.parents
              engine.rounds
            resolvents := engine.resolvents + 1 }) := by
  rw [addStaged]
  by_cases refused : staged.clause.isTautology = true ∨ engine.set.contains staged.clause = true
  · rw [ClauseSet.insert_refused _ _ refused]
    exact Or.inl ⟨refused, rfl⟩
  · simp only [not_or, Bool.not_eq_true] at refused
    rw [ClauseSet.insert_fresh _ _ refused.1 refused.2]
    exact Or.inr ⟨refused.1, refused.2, rfl⟩

/-- A round which is made: the run as it stands before, and what it meets from outside. -/
structure RoundMade where
  before : Engine
  environment : Environment

def RoundMade.after (round : RoundMade) : Engine :=
  round.before.step round.environment

/-- What a caller may do with a run, each time in an environment of its own. -/
inductive Call where
  | step (environment : Environment)
  | refute (environment : Environment)

def call (engine : Engine) : Call → Engine
  | .step environment => engine.step environment
  | .refute environment => engine.refute environment

/-- A run after several calls, the first of the list coming first. -/
def calls (engine : Engine) (made : List Call) : Engine :=
  made.foldl call engine

/-- The rounds of a run of at most so many, the first round first. -/
def runHistory (environment : Environment) : Nat → Engine → List RoundMade
  | 0, _ => []
  | rounds + 1, engine =>
      match engine.state, engine.exceeded environment with
      | .active, none =>
          ⟨engine, environment⟩ :: runHistory environment rounds (engine.step environment)
      | _, _ => []

/-- The rounds made in one call: none if the run is over, and within a refutation
all of them. -/
def callHistory (engine : Engine) : Call → List RoundMade
  | .step environment => if engine.state = .active then [⟨engine, environment⟩] else []
  | .refute environment => runHistory environment engine.roundBound engine

def history (engine : Engine) : List Call → List RoundMade
  | [] => []
  | next :: rest => engine.callHistory next ++ (engine.call next).history rest

section

variable (property : Engine → List RoundMade → Prop)
  (next : ∀ (round : RoundMade) (past : List RoundMade), round.before.state = .active →
    property round.before past → property round.after (past ++ [round]))
  (stop : ∀ (engine : Engine) (past : List RoundMade) (budget : Budget), property engine past →
    property { engine with exhausted := some budget } past)

include next stop

theorem runHistory_induction (environment : Environment) (rounds : Nat) (engine : Engine)
    (past : List RoundMade) (holds : property engine past) :
    property (engine.run environment rounds) (past ++ engine.runHistory environment rounds) := by
  induction rounds generalizing engine past with
  | zero => simpa [run, runHistory] using holds
  | succ rounds ih =>
      rw [run, runHistory]
      cases state : engine.state with
      | active =>
          cases limit : engine.exceeded environment with
          | some budget => simpa [state] using stop engine past budget holds
          | none =>
              have later := ih _ _ (next ⟨engine, environment⟩ past state holds)
              simpa [RoundMade.after] using later
      | conflict pair => simpa using holds
      | saturated => simpa using holds

/-- What every round adds to the account of the rounds so far, and noting the limit
which was reached leaves as it is, holds of a run and all its rounds. -/
theorem history_induction (made : List Call) (engine : Engine) (past : List RoundMade)
    (holds : property engine past) :
    property (engine.calls made) (past ++ engine.history made) := by
  induction made generalizing engine past with
  | nil => simpa [calls, history] using holds
  | cons call rest ih =>
      rw [history, ← List.append_assoc]
      apply ih
      cases call with
      | refute environment =>
          exact runHistory_induction property next stop environment _ engine past holds
      | step environment =>
          rw [callHistory]
          split
          · rename_i active
            exact next ⟨engine, environment⟩ past active holds
          · rename_i ended
            rw [call, step_of_ne_active environment engine ended, List.append_nil]
            exact holds

end

/-- What every round keeps, whichever it is, and noting a limit does, calls keep. -/
theorem calls_induction (property : Engine → Prop)
    (step : ∀ (environment : Environment) (engine : Engine), property engine →
      property (engine.step environment))
    (stop : ∀ (engine : Engine) (budget : Budget), property engine →
      property { engine with exhausted := some budget })
    (made : List Call) (engine : Engine) (holds : property engine) :
    property (engine.calls made) :=
  history_induction (fun engine _ => property engine)
    (fun round _ _ held => step round.environment round.before held)
    (fun engine _ budget held => stop engine budget held) made engine [] holds

end Clausal.Engine
