import Clausal.Saturation.Scan

set_option autoImplicit false

/- A scan split among workers. Rows are dealt out by turns; a worker checks one
row at a time and, on finding a conflict, raises a flag which is looked at before
each row. What the workers do at the same time is put in an order by the moment at
which each looked at the flag, which is all that one worker learns of another. -/
namespace Clausal

/-- One worker takes its next row. `observes` is false while a flag raised by
another worker has not reached it. -/
structure Turn where
  worker : Nat
  observes : Bool

abbrev Schedule := List Turn

/-- The rows a worker has still to check, and what it has found. -/
structure Worker where
  rows : List Nat
  sweep : Sweep

namespace Worker

/-- The rows of the first worker are 0, `count`, and so on, the next worker's are
one further. -/
def start (size count worker : Nat) : Worker :=
  ⟨(List.range size).filter (· % count == worker), {}⟩

theorem mem_start (size count worker row : Nat) :
    row ∈ (start size count worker).rows ↔ row < size ∧ row % count = worker := by
  simp [start]

def hasConflict (worker : Worker) : Bool :=
  worker.sweep.conflict.isSome

/-- The next row, or none any more once the flag is seen or a conflict is found. -/
def advance (set : ClauseSet) (flagged : Bool) (worker : Worker) : Worker :=
  match worker.rows with
  | [] => worker
  | row :: rest =>
      if flagged then ⟨[], worker.sweep⟩
      else
        let sweep := (Scan.rowPairs set.size row).foldl (Sweep.visit set) worker.sweep
        ⟨if sweep.conflict.isSome then [] else rest, sweep⟩

/-- The flag is up as soon as some worker has a conflict. -/
def take (set : ClauseSet) (workers : List Worker) (turn : Turn) : List Worker :=
  workers.modify turn.worker
    (advance set (turn.observes && workers.any hasConflict))

/-- Turns enough for every worker to finish, one worker after the other. -/
def closing (size count : Nat) : Schedule :=
  (List.range count).flatMap fun worker => List.replicate size ⟨worker, true⟩

/-- Every worker at the end of a schedule and of the turns it leaves to be taken. -/
def run (set : ClauseSet) (count : Nat) (schedule : Schedule) : List Worker :=
  (schedule ++ closing set.size count).foldl (take set)
    ((List.range count).map (start set.size count))

end Worker

namespace Scan

def leastPair : Option Pair → Option Pair → Option Pair
  | some pair, some other => some (if (Pair.order pair other).isLE then pair else other)
  | some pair, none => some pair
  | none, other => other

def dropRepeats (staged : List Staged) : List Staged :=
  let step (kept : Array Staged × Std.TreeSet (List Literal)) (entry : Staged) :=
    if kept.2.contains entry.clause.canonical then kept
    else (kept.1.push entry, kept.2.insert entry.clause.canonical)
  (staged.foldl step (#[], ∅)).1.toList

/-- The findings of all workers. Beside a conflict nothing is staged; otherwise what
was staged is put in order of parents and of equal clauses the first is kept. -/
def merge (scans : List Scan) : Scan :=
  let conflict := scans.foldl (fun least scan => leastPair least scan.conflict) none
  let staged := scans.flatMap fun scan => scan.staged.toList
  { conflict
    staged := if conflict.isSome then #[] else (dropRepeats (Ordered.sort staged)).toArray
    pairs := scans.foldl (fun count scan => count + scan.pairs) 0 }

/-- Scans with so many workers, but no more than there are rows. -/
def parallel (set : ClauseSet) (workers : Nat) (schedule : Schedule) : Scan :=
  let count := max 1 (min workers (max set.size 1))
  merge ((Worker.run set count schedule).map fun worker => worker.sweep.toScan)

end Scan
end Clausal
