import Clausal.Proofs.Saturation.Scan

set_option autoImplicit false

namespace Clausal

namespace Worker

/-- A worker has checked the first of its rows. The others are still to be checked,
or given up because the scan has come to a conflict. -/
def Reached (set : ClauseSet) (rows : List Nat) (ended : Prop) (worker : Worker) : Prop :=
  ∃ done rest, rows = done ++ rest ∧
    worker.sweep = (Scan.pairsOf set.size done).foldl (Sweep.visit set) {} ∧
      (worker.rows = rest ∨ (worker.rows = [] ∧ ended))

theorem reached_start (set : ClauseSet) (count index : Nat) :
    Reached set (start set.size count index).rows False (start set.size count index) :=
  ⟨[], _, rfl, rfl, Or.inl rfl⟩

theorem Reached.mono {set : ClauseSet} {rows : List Nat} {ended later : Prop} {worker : Worker}
    (reached : Reached set rows ended worker) (step : ended → later) :
    Reached set rows later worker := by
  obtain ⟨done, rest, split, swept, left⟩ := reached
  exact ⟨done, rest, split, swept, left.imp_right fun stopped => ⟨stopped.1, step stopped.2⟩⟩

theorem Reached.advance {set : ClauseSet} {rows : List Nat} {ended : Prop} {worker : Worker}
    (reached : Reached set rows ended worker) (flagged : Bool) (raised : flagged = true → ended) :
    Reached set rows (ended ∨ (worker.advance set flagged).hasConflict = true)
      (worker.advance set flagged) := by
  obtain ⟨done, rest, split, swept, left⟩ := reached
  unfold Worker.advance
  cases remaining : worker.rows with
  | nil =>
      refine ⟨done, rest, split, swept, ?_⟩
      rcases left with same | stopped
      · exact Or.inl same
      · exact Or.inr ⟨stopped.1, Or.inl stopped.2⟩
  | cons row others =>
      have next : rest = row :: others := by
        rcases left with same | ⟨empty, _⟩
        · rw [← same, remaining]
        · rw [remaining] at empty
          cases empty
      dsimp only
      cases flagged with
      | true => exact ⟨done, rest, split, swept, Or.inr ⟨rfl, Or.inl (raised rfl)⟩⟩
      | false =>
          refine ⟨done ++ [row], others, ?_, ?_, ?_⟩
          · rw [split, next, List.append_assoc, List.singleton_append]
          · simp [swept, Scan.pairsOf, List.foldl_append]
          · simp only [Bool.false_eq_true, ↓reduceIte, hasConflict]
            split
            · rename_i conflict
              exact Or.inr ⟨rfl, Or.inr conflict⟩
            · exact Or.inl rfl

theorem hasConflict_advance (set : ClauseSet) (flagged : Bool) (worker : Worker)
    (conflict : worker.hasConflict = true) : (worker.advance set flagged).hasConflict = true := by
  unfold Worker.advance
  split
  · exact conflict
  · split
    · exact conflict
    · have ended : worker.sweep.conflict ≠ none := by
        rw [hasConflict, Option.isSome_iff_ne_none] at conflict
        exact conflict
      rw [hasConflict, Sweep.foldl_visit_of_conflict set _ _ ended]
      exact conflict

theorem length_rows_advance (set : ClauseSet) (flagged : Bool) (worker : Worker) :
    (worker.advance set flagged).rows.length ≤ worker.rows.length - 1 := by
  unfold Worker.advance
  split
  · rename_i empty
    simp [empty]
  · rename_i row rest more
    rw [more]
    split
    · simp
    · dsimp only
      split <;> simp

theorem getElem?_take (set : ClauseSet) (workers : List Worker) (turn : Turn) (index : Nat) :
    (take set workers turn)[index]? =
      if turn.worker = index then
        workers[index]?.map (advance set (turn.observes && workers.any hasConflict))
      else workers[index]? := by
  rw [take, List.getElem?_modify]
  split <;> simp

theorem any_hasConflict_take (set : ClauseSet) (workers : List Worker) (turn : Turn)
    (conflict : workers.any hasConflict = true) :
    (take set workers turn).any hasConflict = true := by
  obtain ⟨worker, member, found⟩ := List.any_eq_true.mp conflict
  obtain ⟨index, place⟩ := List.mem_iff_getElem?.mp member
  have after := getElem?_take set workers turn index
  rw [place] at after
  apply List.any_eq_true.mpr
  split at after
  · exact ⟨_, List.mem_of_getElem? after, hasConflict_advance set _ worker found⟩
  · exact ⟨worker, List.mem_of_getElem? after, found⟩

/-- All workers are on their way, each on the rows dealt to it. -/
def Underway (set : ClauseSet) (count : Nat) (workers : List Worker) : Prop :=
  ∀ index worker, workers[index]? = some worker →
    Reached set (start set.size count index).rows (workers.any hasConflict = true) worker

theorem Underway.take {set : ClauseSet} {count : Nat} {workers : List Worker}
    (underway : Underway set count workers) (turn : Turn) :
    Underway set count (take set workers turn) := by
  intro index worker place
  have after := getElem?_take set workers turn index
  rw [place] at after
  split at after
  · obtain ⟨earlier, before, moved⟩ := Option.map_eq_some_iff.mp after.symm
    have raised : (turn.observes && workers.any hasConflict) = true →
        workers.any hasConflict = true := fun both => (Bool.and_eq_true_iff.mp both).2
    have reached := (underway index earlier before).advance _ raised
    rw [moved] at reached
    refine reached.mono ?_
    rintro (conflict | found)
    · exact any_hasConflict_take set workers turn conflict
    · exact List.any_eq_true.mpr ⟨worker, List.mem_of_getElem? place, found⟩
  · exact (underway index worker after.symm).mono (any_hasConflict_take set workers turn)

theorem Underway.foldl_take {set : ClauseSet} {count : Nat} {workers : List Worker}
    (underway : Underway set count workers) (schedule : Schedule) :
    Underway set count (schedule.foldl (Worker.take set) workers) := by
  induction schedule generalizing workers with
  | nil => exact underway
  | cons turn rest ih => exact ih (underway.take turn)

theorem underway_run (set : ClauseSet) (count : Nat) (schedule : Schedule) :
    Underway set count (run set count schedule) := by
  apply Underway.foldl_take
  intro index worker place
  rw [List.getElem?_map, Option.map_eq_some_iff] at place
  obtain ⟨dealt, listed, made⟩ := place
  have same : dealt = index := by
    obtain ⟨inside, value⟩ := List.getElem?_eq_some_iff.mp listed
    rw [← value, List.getElem_range]
  rw [← made, same]
  exact (reached_start set count index).mono False.elim

theorem length_rows_foldl_take (set : ClauseSet) (schedule : Schedule) (workers : List Worker)
    (index : Nat) (worker : Worker)
    (after : (schedule.foldl (take set) workers)[index]? = some worker) :
    ∃ earlier, workers[index]? = some earlier ∧
      worker.rows.length ≤ earlier.rows.length - schedule.countP (·.worker == index) := by
  induction schedule generalizing workers with
  | nil => exact ⟨worker, after, by simp⟩
  | cons turn rest ih =>
      obtain ⟨between, place, shorter⟩ := ih (take set workers turn) after
      rw [getElem?_take] at place
      rw [List.countP_cons]
      split at place
      · rename_i own
        obtain ⟨earlier, before, moved⟩ := Option.map_eq_some_iff.mp place
        refine ⟨earlier, before, ?_⟩
        have taken := length_rows_advance set
          (turn.observes && workers.any hasConflict) earlier
        rw [moved] at taken
        rw [own, beq_self_eq_true, if_pos rfl]
        omega
      · rename_i other
        refine ⟨between, place, ?_⟩
        rw [if_neg (by simpa using other)]
        exact shorter

theorem length_foldl_take (set : ClauseSet) (schedule : Schedule) (workers : List Worker) :
    (schedule.foldl (take set) workers).length = workers.length := by
  induction schedule generalizing workers with
  | nil => rfl
  | cons turn rest ih => rw [List.foldl_cons, ih, take, List.length_modify]

theorem length_run (set : ClauseSet) (count : Nat) (schedule : Schedule) :
    (run set count schedule).length = count := by
  rw [run, length_foldl_take, List.length_map, List.length_range]

theorem exists_of_lt_run (set : ClauseSet) (count : Nat) (schedule : Schedule) (index : Nat)
    (inside : index < count) : ∃ worker, (run set count schedule)[index]? = some worker := by
  rw [← length_run set count schedule] at inside
  exact ⟨_, List.getElem?_eq_getElem inside⟩

theorem size_le_countP_closing (size count index : Nat) (inside : index < count) :
    size ≤ (closing size count).countP (·.worker == index) := by
  have part : (List.replicate size (⟨index, true⟩ : Turn)).Sublist (closing size count) := by
    apply List.sublist_flatten_of_mem
    exact List.mem_map.mpr ⟨index, List.mem_range.mpr inside, rfl⟩
  have counted := part.countP_le (p := (·.worker == index))
  rwa [List.countP_replicate, beq_self_eq_true, if_pos rfl] at counted

theorem rows_of_mem_run (set : ClauseSet) (count : Nat) (schedule : Schedule) (index : Nat)
    (worker : Worker) (place : (run set count schedule)[index]? = some worker) :
    worker.rows = [] := by
  obtain ⟨earlier, before, shorter⟩ := length_rows_foldl_take set _ _ index worker place
  rw [List.getElem?_map, Option.map_eq_some_iff] at before
  obtain ⟨dealt, listed, made⟩ := before
  obtain ⟨inside, value⟩ := List.getElem?_eq_some_iff.mp listed
  rw [List.length_range] at inside
  have few : earlier.rows.length ≤ set.size := by
    rw [← made]
    exact (List.length_filter_le _ _).trans (List.length_range).le
  have turns := size_le_countP_closing set.size count index inside
  rw [List.countP_append] at shorter
  exact List.eq_nil_of_length_eq_zero (by omega)

/-- A worker has checked all its rows, unless some worker has a conflict. -/
theorem finds_of_mem_run (set : ClauseSet) (count : Nat) (schedule : Schedule) (index : Nat)
    (worker : Worker) (place : (run set count schedule)[index]? = some worker) :
    ∃ rows, Sweep.Finds set (Scan.pairsOf set.size rows) [] {} worker.sweep ∧
      ((run set count schedule).any hasConflict = false →
        rows = (start set.size count index).rows) := by
  obtain ⟨done, rest, split, swept, left⟩ := underway_run set count schedule index worker place
  refine ⟨done, ?_, ?_⟩
  · rw [swept]
    exact Scan.finds_pairsOf set done
  · intro unflagged
    rcases left with same | ⟨_, conflict⟩
    · rw [split, ← same, rows_of_mem_run set count schedule index worker place, List.append_nil]
    · rw [unflagged] at conflict
      cases conflict

end Worker

namespace Scan

theorem foldl_leastPair_eq_none_iff (scans : List Scan) (least : Option Pair) :
    scans.foldl (fun least scan => leastPair least scan.conflict) least = none ↔
      least = none ∧ ∀ scan ∈ scans, scan.conflict = none := by
  induction scans generalizing least with
  | nil => simp
  | cons scan rest ih =>
      rw [List.foldl_cons, ih, List.forall_mem_cons]
      cases least <;> cases scan.conflict <;> simp [leastPair]

theorem exists_of_foldl_leastPair (scans : List Scan) (least : Option Pair) (pair : Pair)
    (found : scans.foldl (fun least scan => leastPair least scan.conflict) least = some pair) :
    least = some pair ∨ ∃ scan ∈ scans, scan.conflict = some pair := by
  induction scans generalizing least with
  | nil => exact Or.inl found
  | cons scan rest ih =>
      rw [List.foldl_cons] at found
      rcases ih _ found with here | ⟨other, later, conflict⟩
      · have one : leastPair least scan.conflict = least ∨
            leastPair least scan.conflict = scan.conflict := by
          cases least with
          | none => exact Or.inr rfl
          | some first =>
              cases scan.conflict with
              | none => exact Or.inl rfl
              | some second =>
                  rw [leastPair]
                  split
                  · exact Or.inl rfl
                  · exact Or.inr rfl
        rcases one with same | same
        · exact Or.inl (same.symm.trans here)
        · exact Or.inr ⟨scan, List.mem_cons_self, same.symm.trans here⟩
      · exact Or.inr ⟨other, List.mem_cons_of_mem scan later, conflict⟩

theorem dropRepeats_eq_firsts (staged : List Staged) : dropRepeats staged = firsts [] staged := by
  suffices kept : ∀ (kept : Array Staged) (seen : Std.TreeSet (List Literal))
      (forms : List (List Literal)), (∀ form, seen.contains form = true ↔ form ∈ forms) →
      (staged.foldl (fun (kept : Array Staged × Std.TreeSet (List Literal)) entry =>
        if kept.2.contains entry.clause.canonical then kept
        else (kept.1.push entry, kept.2.insert entry.clause.canonical)) (kept, seen)).1.toList =
          kept.toList ++ firsts forms staged by
    have all := kept #[] ∅ [] (by simp)
    simpa [dropRepeats] using all
  induction staged with
  | nil => simp [firsts]
  | cons entry rest ih =>
      intro kept seen forms sees
      rw [List.foldl_cons, firsts]
      by_cases known : entry.clause.canonical ∈ forms
      · rw [if_pos known, if_pos ((sees _).mpr known)]
        exact ih kept seen forms sees
      · rw [if_neg known, if_neg (fun seen => known ((sees _).mp seen)),
          ih _ _ (entry.clause.canonical :: forms)]
        · simp
        · intro form
          rw [Std.TreeSet.contains_insert, Bool.or_eq_true, beq_iff_eq, Std.compare_eq_iff_eq,
            List.mem_cons, sees form]
          exact or_congr_left eq_comm

theorem staged_merge_of_free (scans : List Scan) (free : (merge scans).conflict = none) :
    (merge scans).staged.toList =
      firsts [] (Ordered.sort (scans.flatMap fun scan => scan.staged.toList)) := by
  unfold merge at free ⊢
  dsimp only at free ⊢
  rw [free, ← dropRepeats_eq_firsts]
  rfl

theorem staged_merge_of_conflict (scans : List Scan) (ended : (merge scans).conflict ≠ none) :
    (merge scans).staged.toList = [] := by
  unfold merge at ended ⊢
  dsimp only at ended ⊢
  rw [Option.isSome_iff_ne_none.mpr ended]
  rfl

theorem mem_sort_staged (scans : List Scan) (entry : Staged) :
    entry ∈ Ordered.sort (scans.flatMap fun scan => scan.staged.toList) ↔
      ∃ scan ∈ scans, entry ∈ scan.staged.toList := by
  rw [Ordered.mem_sort, List.mem_flatMap]

/-- The findings of workers which between them have checked every pair, unless one
has come to a conflict. -/
theorem faithful_merge (set : ClauseSet) (scans : List Scan)
    (conflict : ∀ scan ∈ scans, ∀ pair, scan.conflict = some pair →
      pair.1 ≤ pair.2 ∧ isConflict set pair = true)
    (staged : ∀ scan ∈ scans, ∀ entry ∈ scan.staged.toList,
      entry.parents.1 ≤ entry.parents.2 ∧ resolvent? set entry.parents = some entry)
    (checked : (∀ scan ∈ scans, scan.conflict = none) → ∀ pair, pair.1 ≤ pair.2 →
      isConflict set pair = false ∧ ∀ entry, resolvent? set pair = some entry →
        ∃ scan ∈ scans, ∃ kept ∈ scan.staged.toList,
          kept.clause.canonical = entry.clause.canonical) :
    Faithful set (merge scans) := by
  have whole := fun (free : (merge scans).conflict = none) =>
    checked ((foldl_leastPair_eq_none_iff scans none).mp free).2
  constructor
  · intro pair ended
    rcases exists_of_foldl_leastPair scans none pair ended with impossible | ⟨scan, member, found⟩
    · cases impossible
    · exact conflict scan member pair found
  · intro free pair ordered
    exact (whole free pair ordered).1
  · intro entry member
    by_cases free : (merge scans).conflict = none
    · rw [staged_merge_of_free scans free] at member
      obtain ⟨scan, inside, own⟩ :=
        (mem_sort_staged scans entry).mp ((firsts_sublist _ _).subset member)
      exact staged scan inside entry own
    · rw [staged_merge_of_conflict scans free] at member
      cases member
  · intro free pair ordered entry offered
    obtain ⟨scan, inside, kept, own, same⟩ := (whole free pair ordered).2 entry offered
    have listed := (mem_sort_staged scans kept).mpr ⟨scan, inside, own⟩
    rw [staged_merge_of_free scans free]
    rcases exists_mem_firsts [] _ kept listed with known | ⟨first, member, equal⟩
    · cases known
    · exact ⟨first, member, equal.trans same⟩
  · by_cases free : (merge scans).conflict = none
    · rw [staged_merge_of_free scans free]
      exact firsts_pairwise [] _
    · rw [staged_merge_of_conflict scans free]
      exact .nil

theorem faithful_run (set : ClauseSet) (count : Nat) (schedule : Schedule)
    (manned : 0 < count) :
    Faithful set (merge ((Worker.run set count schedule).map fun worker =>
      worker.sweep.toScan)) := by
  have found : ∀ scan ∈ (Worker.run set count schedule).map fun worker => worker.sweep.toScan,
      ∃ rows sweep, Sweep.Finds set (pairsOf set.size rows) [] {} sweep ∧ scan = sweep.toScan := by
    intro scan member
    obtain ⟨worker, inside, made⟩ := List.mem_map.mp member
    obtain ⟨index, place⟩ := List.mem_iff_getElem?.mp inside
    obtain ⟨rows, finds, _⟩ := Worker.finds_of_mem_run set count schedule index worker place
    exact ⟨rows, worker.sweep, finds, made.symm⟩
  apply faithful_merge
  · intro scan member
    obtain ⟨rows, sweep, finds, made⟩ := found scan member
    rw [made]
    exact conflict_of_finds finds
  · intro scan member
    obtain ⟨rows, sweep, finds, made⟩ := found scan member
    rw [made]
    exact staged_of_finds finds
  · intro free pair ordered
    have unflagged : (Worker.run set count schedule).any Worker.hasConflict = false := by
      rw [List.any_eq_false]
      intro worker member
      rw [Worker.hasConflict, free _ (List.mem_map_of_mem member)]
      exact Bool.false_ne_true
    by_cases row : pair.1 < set.size
    · have someone : pair.1 % count < count := Nat.mod_lt _ manned
      obtain ⟨worker, place⟩ := Worker.exists_of_lt_run set count schedule _ someone
      obtain ⟨rows, finds, whole⟩ := Worker.finds_of_mem_run set count schedule _ worker place
      have own : pair.1 ∈ rows := by
        rw [whole unflagged]
        exact (Worker.mem_start set.size count _ pair.1).mpr ⟨row, rfl⟩
      have listed := List.mem_map_of_mem (f := fun worker => worker.sweep.toScan)
        (List.mem_of_getElem? place)
      refine ⟨free_of_finds finds (free _ listed) pair own ordered, ?_⟩
      intro entry offered
      exact ⟨_, listed, complete_of_finds finds (free _ listed) pair own ordered entry offered⟩
    · constructor
      · rw [Bool.eq_false_iff]
        exact fun conflict => row (lt_of_isConflict set pair conflict).1
      · intro entry offered
        exact absurd (lt_of_resolvent? set pair entry offered).1 row

theorem faithful_parallel (set : ClauseSet) (workers : Nat) (schedule : Schedule) :
    Faithful set (parallel set workers schedule) :=
  faithful_run set _ schedule (Nat.lt_of_lt_of_le Nat.one_pos (Nat.le_max_left _ _))

end Scan
end Clausal
