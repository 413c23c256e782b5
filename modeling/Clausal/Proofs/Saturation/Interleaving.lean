import Clausal.Proofs.Saturation.Workers
import Mathlib.Logic.Relation

set_option autoImplicit false

/- What workers do at the same time, one move of one worker after another: it looks
at the flag, checks a pair, or raises the flag, and between any two of its moves come
any moves of the others. The schedules, in which a worker does a whole row at once,
lead to the same ends, no more and no fewer. -/
namespace Clausal

/-- A worker between two moves: rows it has not begun, pairs left of the row it is
in, and what it has found. -/
structure Scanner where
  rows : List Nat
  pending : List Pair
  sweep : Sweep

/-- All workers, and the flag which they share. -/
structure Crew where
  flag : Bool
  scanners : List Scanner

namespace Crew

/-- One move of the worker at some place. A flag which is up need not be seen yet. -/
inductive Move (set : ClauseSet) (crew : Crew) : Crew → Prop where
  | look (index row : Nat) (rest : List Nat) (sweep : Sweep) (seen : Bool)
      (here : crew.scanners[index]? = some ⟨row :: rest, [], sweep⟩)
      (going : sweep.conflict = none) (raised : seen = true → crew.flag = true) :
      Move set crew ⟨crew.flag, crew.scanners.set index
        (if seen then ⟨[], [], sweep⟩ else ⟨rest, Scan.rowPairs set.size row, sweep⟩)⟩
  | check (index : Nat) (rows : List Nat) (pair : Pair) (pending : List Pair) (sweep : Sweep)
      (here : crew.scanners[index]? = some ⟨rows, pair :: pending, sweep⟩)
      (going : sweep.conflict = none) :
      Move set crew ⟨crew.flag, crew.scanners.set index ⟨rows, pending, sweep.visit set pair⟩⟩
  | raise (index : Nat) (rows : List Nat) (pending : List Pair) (sweep : Sweep)
      (here : crew.scanners[index]? = some ⟨rows, pending, sweep⟩)
      (found : sweep.conflict ≠ none) :
      Move set crew ⟨true, crew.scanners.set index ⟨[], [], sweep⟩⟩

/-- Any number of moves. -/
abbrev Moves (set : ClauseSet) : Crew → Crew → Prop :=
  Relation.ReflTransGen (Move set)

def start (set : ClauseSet) (count : Nat) : Crew :=
  ⟨false, (List.range count).map fun index => ⟨(Worker.start set.size count index).rows, [], {}⟩⟩

def Finished (crew : Crew) : Prop :=
  ∀ scanner ∈ crew.scanners, scanner.rows = [] ∧ scanner.pending = []

end Crew

/-- What a parallel scan may report: what so many workers have found between them
when none has anything left to do. -/
def Scan.Outcome (set : ClauseSet) (workers : Nat) (scan : Scan) : Prop :=
  ∃ crew, Crew.Moves set (Crew.start set (max 1 (min workers (max set.size 1)))) crew ∧
    crew.Finished ∧ scan = merge (crew.scanners.map fun scanner => scanner.sweep.toScan)

namespace Scanner

/-- The worker once it is through with the row it is in. -/
def finish (set : ClauseSet) (scanner : Scanner) : Worker :=
  let sweep := scanner.pending.foldl (Sweep.visit set) scanner.sweep
  ⟨if sweep.conflict.isSome then [] else scanner.rows, sweep⟩

theorem finish_of_conflict (set : ClauseSet) (rows : List Nat) (pending : List Pair)
    (sweep : Sweep) (found : sweep.conflict ≠ none) :
    finish set ⟨rows, pending, sweep⟩ = ⟨[], sweep⟩ := by
  simp only [finish, Sweep.foldl_visit_of_conflict set pending sweep found]
  rw [if_pos (Option.isSome_iff_ne_none.mpr found)]

theorem finish_of_going (set : ClauseSet) (rows : List Nat) (sweep : Sweep)
    (going : sweep.conflict = none) : finish set ⟨rows, [], sweep⟩ = ⟨rows, sweep⟩ := by
  simp [finish, going]

end Scanner

namespace Crew

theorem map_finish_start (set : ClauseSet) (count : Nat) :
    (start set count).scanners.map (Scanner.finish set) =
      (List.range count).map (Worker.start set.size count) := by
  rw [start, List.map_map]
  rfl

theorem map_finish_set (set : ClauseSet) (scanners : List Scanner) (index : Nat)
    (old new : Scanner) (change : Worker → Worker) (here : scanners[index]? = some old)
    (changed : new.finish set = change (old.finish set)) :
    (scanners.set index new).map (Scanner.finish set) =
      (scanners.map (Scanner.finish set)).modify index change := by
  have inside := (List.getElem?_eq_some_iff.mp here).1
  apply List.ext_getElem?
  intro place
  rw [List.getElem?_map, List.getElem?_set, List.getElem?_modify, List.getElem?_map]
  by_cases own : index = place
  · rw [← own, here]
    simp [inside, changed]
  · simp [own]

/-- A move is a turn or, if it is not made at the start of a row, none. -/
theorem exists_turns_of_move {set : ClauseSet} {crew later : Crew}
    (raised : crew.flag = true →
      (crew.scanners.map (Scanner.finish set)).any Worker.hasConflict = true)
    (move : Move set crew later) :
    (∃ turns : Schedule, later.scanners.map (Scanner.finish set) =
        turns.foldl (Worker.take set) (crew.scanners.map (Scanner.finish set))) ∧
      (later.flag = true →
        (later.scanners.map (Scanner.finish set)).any Worker.hasConflict = true) := by
  have unchanged : ∀ (index : Nat) (old new : Scanner), crew.scanners[index]? = some old →
      new.finish set = old.finish set →
        (crew.scanners.set index new).map (Scanner.finish set) =
          crew.scanners.map (Scanner.finish set) := by
    intro index old new here same
    rw [map_finish_set set crew.scanners index old new id here same, List.modify_id]
  cases move with
  | look index row rest sweep seen here going up =>
      have turn : (crew.scanners.set index (if seen then ⟨[], [], sweep⟩
          else ⟨rest, Scan.rowPairs set.size row, sweep⟩)).map (Scanner.finish set) =
            Worker.take set (crew.scanners.map (Scanner.finish set)) ⟨index, seen⟩ := by
        apply map_finish_set set crew.scanners index _ _ _ here
        rw [Scanner.finish_of_going set _ sweep going]
        cases seen with
        | true =>
            simp only [raised (up rfl), Bool.and_true, ↓reduceIte, Worker.advance]
            exact Scanner.finish_of_going set [] sweep going
        | false => rfl
      refine ⟨⟨[⟨index, seen⟩], turn⟩, fun flag => ?_⟩
      rw [turn]
      exact Worker.any_hasConflict_take set _ _ (raised flag)
  | check index rows pair pending sweep here going =>
      have same := unchanged index _ ⟨rows, pending, sweep.visit set pair⟩ here rfl
      exact ⟨⟨[], same⟩, fun flag => same ▸ raised flag⟩
  | raise index rows pending sweep here found =>
      have through := Scanner.finish_of_conflict set rows pending sweep found
      have same := unchanged index _ ⟨[], [], sweep⟩ here
        ((Scanner.finish_of_conflict set [] [] sweep found).trans through.symm)
      refine ⟨⟨[], same⟩, fun _ => ?_⟩
      dsimp only
      rw [same, List.any_map, List.any_eq_true]
      refine ⟨_, List.mem_of_getElem? here, ?_⟩
      rw [Function.comp_apply, through]
      exact Option.isSome_iff_ne_none.mpr found

theorem exists_schedule_of_moves {set : ClauseSet} {crew later : Crew}
    (raised : crew.flag = true →
      (crew.scanners.map (Scanner.finish set)).any Worker.hasConflict = true)
    (moves : Moves set crew later) :
    ∃ schedule : Schedule, later.scanners.map (Scanner.finish set) =
      schedule.foldl (Worker.take set) (crew.scanners.map (Scanner.finish set)) := by
  -- The turns so far are those which have been begun.
  suffices both : (∃ schedule : Schedule, later.scanners.map (Scanner.finish set) =
      schedule.foldl (Worker.take set) (crew.scanners.map (Scanner.finish set))) ∧
        (later.flag = true →
          (later.scanners.map (Scanner.finish set)).any Worker.hasConflict = true) from both.1
  induction moves with
  | refl => exact ⟨⟨[], rfl⟩, raised⟩
  | tail _ move ih =>
      obtain ⟨⟨schedule, before⟩, up⟩ := ih
      obtain ⟨⟨turns, after⟩, still⟩ := exists_turns_of_move up move
      refine ⟨⟨schedule ++ turns, ?_⟩, still⟩
      rw [after, before, List.foldl_append]

theorem set_of_getElem? {α : Type} {values : List α} {index : Nat} {value : α}
    (here : values[index]? = some value) : values.set index value = values := by
  obtain ⟨inside, same⟩ := List.getElem?_eq_some_iff.mp here
  rw [← same]
  exact List.set_getElem_self inside

/-- A worker which is in a row and has no conflict can go through with it. -/
theorem moves_row (set : ClauseSet) (crew : Crew) (index : Nat) (rows : List Nat)
    (pending : List Pair) (sweep : Sweep)
    (here : crew.scanners[index]? = some ⟨rows, pending, sweep⟩) (going : sweep.conflict = none) :
    ∃ flag, Moves set crew ⟨flag, crew.scanners.set index
        ⟨(Scanner.finish set ⟨rows, pending, sweep⟩).rows, [],
          (Scanner.finish set ⟨rows, pending, sweep⟩).sweep⟩⟩ ∧
      (crew.flag = true ∨ (Scanner.finish set ⟨rows, pending, sweep⟩).hasConflict = true →
        flag = true) := by
  induction pending generalizing crew sweep with
  | nil =>
      refine ⟨crew.flag, ?_, ?_⟩
      · rw [Scanner.finish_of_going set rows sweep going, set_of_getElem? here]
      · simp [Scanner.finish_of_going set rows sweep going, Worker.hasConflict, going]
  | cons pair pending ih =>
      have checked : Move set crew ⟨crew.flag, crew.scanners.set index
          ⟨rows, pending, sweep.visit set pair⟩⟩ :=
        .check index rows pair pending sweep here going
      have inside := (List.getElem?_eq_some_iff.mp here).1
      by_cases found : (sweep.visit set pair).conflict = none
      · obtain ⟨flag, moves, raised⟩ := ih ⟨crew.flag, crew.scanners.set index
          ⟨rows, pending, sweep.visit set pair⟩⟩ (sweep.visit set pair)
            (List.getElem?_set_self inside) found
        rw [List.set_set] at moves
        exact ⟨flag, .head checked moves, raised⟩
      · have raise : Move set ⟨crew.flag, crew.scanners.set index
            ⟨rows, pending, sweep.visit set pair⟩⟩ ⟨true, _⟩ :=
          .raise index rows pending _ (List.getElem?_set_self inside) found
        rw [List.set_set] at raise
        refine ⟨true, ?_, fun _ => rfl⟩
        have through : Scanner.finish set ⟨rows, pair :: pending, sweep⟩ =
            ⟨[], sweep.visit set pair⟩ :=
          Scanner.finish_of_conflict set rows pending (sweep.visit set pair) found
        rw [through]
        exact .tail (.single checked) raise

/-- No worker is in a row, those with a conflict are done, and the flag is up for them. -/
structure AtRows (crew : Crew) (workers : List Worker) : Prop where
  scanners : crew.scanners = workers.map fun worker => ⟨worker.rows, [], worker.sweep⟩
  raised : workers.any Worker.hasConflict = true → crew.flag = true
  done : ∀ worker ∈ workers, worker.hasConflict = true → worker.rows = []

theorem atRows_start (set : ClauseSet) (count : Nat) :
    (start set count).AtRows ((List.range count).map (Worker.start set.size count)) where
  scanners := by
    rw [start, List.map_map]
    rfl
  raised conflict := by
    simp [Worker.start, Worker.hasConflict] at conflict
  done worker member conflict := by
    obtain ⟨index, _, rfl⟩ := List.mem_map.mp member
    cases conflict

theorem AtRows.set {crew : Crew} {workers : List Worker} (rests : crew.AtRows workers)
    (index : Nat) (worker : Worker) (flag : Bool)
    (done : worker.hasConflict = true → worker.rows = [])
    (raised : crew.flag = true ∨ worker.hasConflict = true → flag = true) :
    AtRows ⟨flag, crew.scanners.set index ⟨worker.rows, [], worker.sweep⟩⟩
      (workers.set index worker) where
  scanners := by rw [rests.scanners, List.map_set]
  raised conflict := by
    obtain ⟨other, member, found⟩ := List.any_eq_true.mp conflict
    rcases List.mem_or_eq_of_mem_set member with before | rfl
    · exact raised (Or.inl (rests.raised (List.any_eq_true.mpr ⟨other, before, found⟩)))
    · exact raised (Or.inr found)
  done other member found := by
    rcases List.mem_or_eq_of_mem_set member with before | rfl
    · exact rests.done other before found
    · exact done found

theorem AtRows.exists_moves {crew : Crew} {workers : List Worker}
    (rests : crew.AtRows workers) (set : ClauseSet) (turn : Turn) :
    ∃ later, Moves set crew later ∧ later.AtRows (Worker.take set workers turn) := by
  rw [Worker.take, List.modify_eq_set_getElem?]
  cases here : workers[turn.worker]? with
  | none => exact ⟨crew, .refl, rests⟩
  | some worker =>
      change ∃ later, Moves set crew later ∧
        later.AtRows (workers.set turn.worker (worker.advance set _))
      obtain ⟨rows, sweep⟩ := worker
      cases rows with
      | nil =>
          rw [show Worker.advance set _ ⟨[], sweep⟩ = ⟨[], sweep⟩ from rfl, set_of_getElem? here]
          exact ⟨crew, .refl, rests⟩
      | cons row rest =>
          have place : crew.scanners[turn.worker]? = some ⟨row :: rest, [], sweep⟩ := by
            rw [rests.scanners, List.getElem?_map, here]
            rfl
          have going : sweep.conflict = none := by
            cases conflict : sweep.conflict with
            | none => rfl
            | some pair =>
                have found : Worker.hasConflict ⟨row :: rest, sweep⟩ = true := by
                  simp [Worker.hasConflict, conflict]
                cases rests.done _ (List.mem_of_getElem? here) found
          have silent : ∀ rows, Worker.hasConflict ⟨rows, sweep⟩ = false := by
            simp [Worker.hasConflict, going]
          cases flagged : turn.observes && workers.any Worker.hasConflict with
          | true =>
              have up : crew.flag = true := rests.raised (Bool.and_eq_true_iff.mp flagged).2
              have look : Move set crew _ :=
                .look turn.worker row rest sweep true place going fun _ => up
              refine ⟨_, .single look, ?_⟩
              exact rests.set turn.worker ⟨[], sweep⟩ crew.flag (fun _ => rfl) fun _ => up
          | false =>
              -- No flag is seen: the worker begins the row and goes through with it.
              have look : Move set crew _ :=
                .look turn.worker row rest sweep false place going
                  fun impossible => absurd impossible Bool.false_ne_true
              have inside := (List.getElem?_eq_some_iff.mp place).1
              obtain ⟨flag, moves, raised⟩ := moves_row set ⟨crew.flag, crew.scanners.set
                turn.worker ⟨rest, Scan.rowPairs set.size row, sweep⟩⟩ turn.worker rest
                (Scan.rowPairs set.size row) sweep (List.getElem?_set_self inside) going
              rw [List.set_set] at moves
              refine ⟨_, .head look moves, ?_⟩
              apply rests.set turn.worker (Scanner.finish set ⟨rest, _, sweep⟩) flag _ raised
              intro found
              exact if_pos found

theorem AtRows.exists_moves_of_schedule {crew : Crew} {workers : List Worker}
    (rests : crew.AtRows workers) (set : ClauseSet) (schedule : Schedule) :
    ∃ later, Moves set crew later ∧ later.AtRows (schedule.foldl (Worker.take set) workers) := by
  induction schedule generalizing crew workers with
  | nil => exact ⟨crew, .refl, rests⟩
  | cons turn rest ih =>
      obtain ⟨between, first, restsBetween⟩ := rests.exists_moves set turn
      obtain ⟨later, others, restsLater⟩ := ih restsBetween
      exact ⟨later, first.trans others, restsLater⟩

end Crew

theorem Worker.foldl_take_of_idle (set : ClauseSet) (schedule : Schedule) (workers : List Worker)
    (idle : ∀ worker ∈ workers, worker.rows = []) :
    schedule.foldl (take set) workers = workers := by
  induction schedule with
  | nil => rfl
  | cons turn rest ih =>
      have still : take set workers turn = workers := by
        apply List.ext_getElem?
        intro index
        rw [getElem?_take]
        cases place : workers[index]? with
        | none => simp
        | some worker => simp [advance, idle worker (List.mem_of_getElem? place)]
      rw [List.foldl_cons, still, ih]

/-- The ends of all interleavings of moves are the ends of all schedules. -/
theorem Scan.outcome_iff (set : ClauseSet) (workers : Nat) (scan : Scan) :
    Outcome set workers scan ↔ ∃ schedule, scan = parallel set workers schedule := by
  unfold Outcome parallel
  generalize max 1 (min workers (max set.size 1)) = count
  constructor
  · rintro ⟨crew, moves, finished, rfl⟩
    have lowered : (Crew.start set count).flag = true → ((Crew.start set count).scanners.map
        (Scanner.finish set)).any Worker.hasConflict = true := fun up => by cases up
    obtain ⟨schedule, same⟩ := Crew.exists_schedule_of_moves lowered moves
    rw [Crew.map_finish_start] at same
    have idle : ∀ worker ∈ crew.scanners.map (Scanner.finish set), worker.rows = [] := by
      intro worker member
      obtain ⟨scanner, inside, rfl⟩ := List.mem_map.mp member
      simp [Scanner.finish, (finished scanner inside).1]
    have ran : Worker.run set count schedule = crew.scanners.map (Scanner.finish set) := by
      rw [Worker.run, List.foldl_append, ← same, Worker.foldl_take_of_idle set _ _ idle]
    refine ⟨schedule, ?_⟩
    dsimp only
    rw [ran, List.map_map]
    refine congrArg merge (List.map_congr_left fun scanner inside => ?_)
    simp [Scanner.finish, (finished scanner inside).2]
  · rintro ⟨schedule, rfl⟩
    have rested := Crew.atRows_start set count
    obtain ⟨crew, moves, rests⟩ :=
      rested.exists_moves_of_schedule set (schedule ++ Worker.closing set.size count)
    refine ⟨crew, moves, ?_, ?_⟩
    · intro scanner member
      rw [rests.scanners] at member
      obtain ⟨worker, inside, rfl⟩ := List.mem_map.mp member
      obtain ⟨index, place⟩ := List.mem_iff_getElem?.mp inside
      exact ⟨Worker.rows_of_mem_run set count schedule index worker place, rfl⟩
    · rw [rests.scanners, List.map_map]
      rfl

end Clausal
