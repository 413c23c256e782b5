import Clausal.Derivation
import Clausal.Failure
import Clausal.Saturation.Workers

set_option autoImplicit false

/- Saturation of a clause set under resolution. In each round every pair is
scanned; a complementary pair refutes the set, a scan which stages nothing shows
that the set is closed under resolution, and any other adds what it has staged. -/
namespace Clausal

/-- The limits of a run and the count of workers of its scans. A limit which is
absent never ends a run. -/
structure Config where
  timeLimit : Option Nat := none
  roundLimit : Option Nat := none
  clauseLimit : Option Nat := none
  workers : Nat := 1
  deriving DecidableEq, Inhabited

def Config.parallel (config : Config) : Bool :=
  decide (1 < config.workers)

/-- What a run meets from outside: after so many rounds the time spent, in the unit
of the limit, and in each round the schedule of the workers. -/
structure Environment where
  clock : Nat → Nat := fun _ => 0
  schedule : Nat → Schedule := fun _ => []

inductive Report where
  | conflict
  | saturated
  | unknown
  deriving DecidableEq

def Report.text : Report → String
  | .conflict => "Conflict"
  | .saturated => "Saturated"
  | .unknown => "Unknown"

/-- Whether there is more to do, and if not, why. -/
inductive State where
  | active
  | conflict (pair : Pair)
  | saturated
  deriving DecidableEq

namespace State

def text : State → String
  | .active => "Active"
  | .conflict (first, second) => s!"Conflict({first}, {second})"
  | .saturated => "Saturated"

def report : State → Report
  | .active => .unknown
  | .conflict _ => .conflict
  | .saturated => .saturated

end State

/-- A run at rest between two rounds. -/
structure Engine where
  config : Config
  set : ClauseSet
  derivation : Derivation
  state : State := .active
  rounds : Nat := 0
  pairs : Nat := 0
  resolvents : Nat := 0
  exhausted : Option Budget := none

namespace Engine

/-- A run yet to start. Every clause of the set is noted as input. -/
def start (config : Config) (set : ClauseSet) : Engine where
  config
  set
  derivation := (List.range set.size).foldl Derivation.addInput {}

def addStaged (engine : Engine) (staged : Staged) : Engine :=
  match engine.set.insert staged.clause with
  | (none, _) => engine
  | (some key, set) =>
      { engine with
        set
        derivation := engine.derivation.addResolvent key staged.parents engine.rounds
        resolvents := engine.resolvents + 1 }

/-- The scan of a round. -/
def scan (environment : Environment) (engine : Engine) : Scan :=
  if engine.config.parallel then
    Scan.parallel engine.set engine.config.workers (environment.schedule engine.rounds)
  else Scan.sequential engine.set

/-- One round, unless the run is over. -/
def step (environment : Environment) (engine : Engine) : Engine :=
  match engine.state with
  | .active =>
      let engine := { engine with rounds := engine.rounds + 1 }
      let scan := engine.scan environment
      let engine := { engine with pairs := engine.pairs + scan.pairs }
      match scan.conflict with
      | some pair => { engine with state := .conflict pair }
      | none =>
          if scan.staged.isEmpty then { engine with state := .saturated }
          else scan.staged.foldl addStaged engine
  | _ => engine

theorem step_of_ne_active (environment : Environment) (engine : Engine)
    (ended : engine.state ≠ .active) : engine.step environment = engine := by
  rw [step]
  split
  · contradiction
  · rfl

/-- The first limit which is reached, if any. Time and rounds are over as soon as
they are used up, clauses once there are more than allowed. -/
def exceeded (environment : Environment) (engine : Engine) : Option Budget :=
  if engine.config.timeLimit.any (· ≤ environment.clock engine.rounds) then some .time
  else if engine.config.roundLimit.any (· ≤ engine.rounds) then some .rounds
  else if engine.config.clauseLimit.any (· < engine.set.size) then some .clauses
  else none

/-- At most so many rounds. Before each the limits are looked at. -/
def run (environment : Environment) : Nat → Engine → Engine
  | 0, engine => engine
  | rounds + 1, engine =>
      match engine.state with
      | .active =>
          match engine.exceeded environment with
          | some budget => { engine with exhausted := some budget }
          | none => run environment rounds (engine.step environment)
      | _ => engine

theorem run_of_ne_active (environment : Environment) (rounds : Nat) (engine : Engine)
    (ended : engine.state ≠ .active) : engine.run environment rounds = engine := by
  cases rounds with
  | zero => rfl
  | succ rounds =>
      rw [run]
      split
      · contradiction
      · rfl

/-- There are three ways for an atom to occur in a clause which is no tautology and
has no repeats, and every round but the last adds such a clause. -/
def roundBound (engine : Engine) : Nat :=
  Nat.pow 3 engine.set.atoms.length + 1

/-- Rounds until a conflict, saturation or a limit. -/
def refute (environment : Environment) (engine : Engine) : Engine :=
  engine.run environment engine.roundBound

theorem refute_of_ne_active (environment : Environment) (engine : Engine)
    (ended : engine.state ≠ .active) : engine.refute environment = engine :=
  run_of_ne_active environment engine.roundBound engine ended

def report (engine : Engine) : Report :=
  engine.state.report

def conflict? (engine : Engine) : Option (Clause × Clause) :=
  match engine.state with
  | .conflict (first, second) => do return (← engine.set.get? first, ← engine.set.get? second)
  | _ => none

/-- The clauses of the input from which the conflict was derived, in order of key. -/
def core (engine : Engine) : List Clause :=
  match engine.state with
  | .conflict (first, second) =>
      (engine.derivation.origins [first, second]).filterMap engine.set.get?
  | _ => []

/-- Whether the set was refuted, or the limit which left it open. -/
def verdict (engine : Engine) : Except Budget Bool :=
  match engine.report with
  | .conflict => .ok true
  | .saturated => .ok false
  | .unknown => .error (engine.exhausted.getD .rounds)

end Engine
end Clausal
