import Clausal.Proofs.Saturation.Agreement
import Clausal.Proofs.Saturation.Ancestry
import Clausal.Proofs.Saturation.Bound
import Mathlib.Logic.Function.Iterate

set_option autoImplicit false

namespace Clausal

/-- The same configuration without limits. -/
def Config.unlimited (config : Config) : Config :=
  { workers := config.workers }

/-- A run may make so many rounds, with so many clauses in the set for the last of them. -/
def Config.Admits (config : Config) (rounds size : Nat) : Prop :=
  config.roundLimit.all (rounds ≤ ·) = true ∧ config.clauseLimit.all (size ≤ ·) = true

/-- A run with so many clauses in its set makes no round after so many. -/
def Config.Stops (config : Config) (rounds size : Nat) : Prop :=
  config.roundLimit.any (· ≤ rounds) = true ∨ config.clauseLimit.any (· < size) = true

namespace Config

theorem Admits.mono {config : Config} {rounds rounds' size size' : Nat}
    (admits : config.Admits rounds size) (fewer : rounds' ≤ rounds) (smaller : size' ≤ size) :
    config.Admits rounds' size' := by
  obtain ⟨enough, room⟩ := admits
  constructor
  · cases limit : config.roundLimit with
    | none => rfl
    | some most =>
        simp only [limit, Option.all_some, decide_eq_true_eq] at enough ⊢
        exact Nat.le_trans fewer enough
  · cases limit : config.clauseLimit with
    | none => rfl
    | some most =>
        simp only [limit, Option.all_some, decide_eq_true_eq] at room ⊢
        exact Nat.le_trans smaller room

theorem not_stops_iff (config : Config) (rounds size : Nat) :
    ¬ config.Stops rounds size ↔ config.Admits (rounds + 1) size := by
  rw [Stops, Admits, not_or]
  refine and_congr ?_ ?_
  · cases config.roundLimit with
    | none => simp
    | some most =>
        simp only [Option.any_some, Option.all_some, decide_eq_true_eq, Nat.not_le]
        exact Iff.rfl
  · cases config.clauseLimit with
    | none => simp
    | some most => simp only [Option.any_some, Option.all_some, decide_eq_true_eq, Nat.not_lt]

end Config

/-- The time is up before the first round. -/
def Environment.Expired (limit : Option Nat) (environment : Environment) : Prop :=
  limit.any (· ≤ environment.clock 0) = true

/-- The time is never up. -/
def Environment.Unhurried (limit : Option Nat) (environment : Environment) : Prop :=
  ∀ rounds, limit.any (· ≤ environment.clock rounds) = false

theorem exists_first {property : Nat → Prop} (holds : ∃ count, property count) :
    ∃ count, property count ∧ ∀ fewer < count, ¬ property fewer := by
  classical
  exact ⟨Nat.find holds, Nat.find_spec holds, fun _ => Nat.find_min holds⟩

namespace Engine

section

variable {initial set : ClauseSet} {record : Derivation}

theorem Recorded.within (recorded : Recorded initial set record) (key : Nat) (clause : Clause)
    (found : set.get? key = some clause) :
    ∀ literal ∈ clause.literals, literal.atom ∈ initial.atoms := by
  induction key using Nat.strongRecOn generalizing clause with
  | ind key ih =>
      obtain ⟨entry, _, noted⟩ := recorded.noted key (set.get?_lt key clause found)
      cases noted with
      | input given =>
          rw [← recorded.get?_initial key given] at found
          exact initial.mem_atoms clause ((initial.mem_toList_iff clause).mpr ⟨key, found⟩)
      | resolvent first second round left right added ordered before inLeft inRight able resolved =>
          rw [found, Option.some.injEq] at resolved
          intro literal inside
          rw [resolved] at inside
          rcases Clause.mem_of_mem_resolveWith literal left right inside with own | own
          · exact ih first (by omega) left inLeft literal own
          · exact ih second before right inRight literal own

/-- A clause of the initial set may repeat a literal, one which is added never does. -/
theorem Recorded.nodup_of_added (recorded : Recorded initial set record) (key : Nat)
    (clause : Clause) (added : initial.size ≤ key) (found : set.get? key = some clause) :
    clause.literals.Nodup := by
  obtain ⟨entry, _, noted⟩ := recorded.noted key (set.get?_lt key clause found)
  cases noted with
  | input given => omega
  | resolvent first second round left right _ ordered before inLeft inRight able resolved =>
      rw [found, Option.some.injEq] at resolved
      rw [resolved]
      exact Clause.nodup_resolveWith left right

theorem Recorded.size_le (recorded : Recorded initial set record) (valid : set.Valid) :
    set.size ≤ initial.size + 3 ^ initial.atoms.length := by
  have added : ∀ clause ∈ set.toList.drop initial.size,
      ∃ key, initial.size ≤ key ∧ set.get? key = some clause := by
    intro clause member
    obtain ⟨place, found⟩ := List.mem_iff_getElem?.mp member
    rw [List.getElem?_drop, ← ClauseSet.get?_eq] at found
    exact ⟨_, Nat.le_add_right _ _, found⟩
  have few : (set.toList.drop initial.size).length ≤ 3 ^ initial.atoms.length := by
    apply Clause.length_le_pow
    · intro clause member
      obtain ⟨key, later, found⟩ := added clause member
      exact recorded.nodup_of_added key clause later found
    · exact fun clause member => valid.proper clause (List.mem_of_mem_drop member)
    · intro clause member
      obtain ⟨key, _, found⟩ := added clause member
      exact recorded.within key clause found
    · exact valid.apart.sublist (List.drop_sublist _ _)
  rw [List.length_drop, ClauseSet.length_toList] at few
  omega

end

theorem valid_of_round {engine later : Engine} (valid : engine.set.Valid)
    (round : Round engine later) : later.set.Valid := by
  cases round with
  | finished => exact valid
  | conflict => exact valid
  | saturated => exact valid
  | grown scan =>
      have begun : (engine.scanned scan).set.Valid := valid
      refine List.foldlRecOn (motive := fun later => later.set.Valid) scan.staged.toList addStaged
        begun ?_
      intro between held entry _
      rcases addStaged_cases between entry with ⟨_, same⟩ | ⟨_, _, added⟩
      · rw [same]
        exact held
      · rw [added]
        exact held.insert entry.clause

theorem valid_calls {config : Config} {set : ClauseSet} (valid : set.Valid) (made : List Call) :
    ((start config set).calls made).set.Valid := by
  apply calls_induction (fun engine => engine.set.Valid) _ _ made _ valid
  · exact fun environment engine held => valid_of_round held (round_step environment engine)
  · exact fun engine budget held => held

theorem set_eq_of_round {engine later : Engine} (round : Round engine later)
    (ended : later.state ≠ .active) : later.set = engine.set := by
  cases round with
  | finished => rfl
  | conflict => rfl
  | saturated => rfl
  | grown scan active =>
      obtain ⟨_, _, _, same⟩ := foldl_addStaged_eq scan.staged.toList (engine.scanned scan)
      rw [same] at ended
      exact absurd active ended

theorem iterate_step_eq_calls (environment : Environment) (rounds : Nat) (engine : Engine) :
    (step environment)^[rounds] engine =
      engine.calls (List.replicate rounds (.step environment)) := by
  induction rounds generalizing engine with
  | zero => rfl
  | succ rounds ih =>
      rw [Function.iterate_succ_apply, ih]
      rfl

theorem addStaged_config (engine : Engine) (config : Config) (entry : Staged) :
    ({ engine with config } : Engine).addStaged entry =
      { engine.addStaged entry with config } := by
  rcases addStaged_cases engine entry with ⟨refused, same⟩ | ⟨proper, fresh, added⟩
  · rw [same, addStaged, ClauseSet.insert_refused _ _ refused]
  · rw [added, addStaged, ClauseSet.insert_fresh _ _ proper fresh]

theorem foldl_addStaged_config (staged : List Staged) (engine : Engine) (config : Config) :
    staged.foldl addStaged ({ engine with config } : Engine) =
      { staged.foldl addStaged engine with config } := by
  induction staged generalizing engine with
  | nil => rfl
  | cons entry rest ih => rw [List.foldl_cons, addStaged_config, ih, List.foldl_cons]

/-- All that a round looks at of the configuration is the count of workers. -/
theorem step_config (environment : Environment) (engine : Engine) (config : Config)
    (workers : config.workers = engine.config.workers) :
    ({ engine with config } : Engine).step environment =
      { engine.step environment with config } := by
  by_cases active : engine.state = .active
  · have scans : ({ engine with config } : Engine).nextScan environment =
        engine.nextScan environment := by
      unfold nextScan scan Config.parallel
      rw [workers]
    rw [step_of_active environment engine active,
      step_of_active environment { engine with config } active, scans]
    split
    · rfl
    · split
      · rfl
      · exact foldl_addStaged_config _ (engine.scanned _) config
  · rw [step_of_ne_active environment engine active,
      step_of_ne_active environment { engine with config } active]

section

variable (config : Config) (environment : Environment) (set : ClauseSet)

/-- The run without limits, after so many rounds. -/
def freely (rounds : Nat) : Engine :=
  (step environment)^[rounds] (start config.unlimited set)

theorem freely_succ (rounds : Nat) :
    freely config environment set (rounds + 1) =
      (freely config environment set rounds).step environment :=
  Function.iterate_succ_apply' _ _ _

theorem freely_eq_calls (rounds : Nat) :
    freely config environment set rounds =
      (start config.unlimited set).calls (List.replicate rounds (.step environment)) :=
  iterate_step_eq_calls environment rounds _

theorem config_freely (rounds : Nat) :
    (freely config environment set rounds).config = config.unlimited := by
  rw [freely_eq_calls, config_calls]
  rfl

theorem monotone_size_freely :
    Monotone fun rounds => (freely config environment set rounds).set.size := by
  apply monotone_nat_of_le_succ
  intro rounds
  rw [freely_succ]
  exact ClauseSet.size_le_of_kept (kept_of_round (round_step environment _))

/-- The round with which a run without limits is over. -/
structure EndsWith (last : Nat) : Prop where
  active : ∀ rounds < last, (freely config environment set rounds).state = .active
  ended : (freely config environment set last).state ≠ .active

end

section

variable {config : Config} {environment : Environment} {set : ClauseSet}

theorem rounds_freely (rounds : Nat)
    (active : ∀ made < rounds, (freely config environment set made).state = .active) :
    (freely config environment set rounds).rounds = rounds := by
  induction rounds with
  | zero => rfl
  | succ rounds ih =>
      rw [freely_succ, rounds_of_round (round_step environment _)
        (active rounds (Nat.lt_succ_self rounds)), ih fun made before => active made (by omega)]

/-- No matter what the clauses of the set repeat, there is a last round. -/
theorem exists_last (config : Config) (environment : Environment) (valid : set.Valid) :
    ∃ last ≤ (start config set).roundBound, EndsWith config environment set last := by
  have ends : ∃ rounds, rounds ≤ (start config set).roundBound ∧
      (freely config environment set rounds).state ≠ .active := by
    by_contra endless
    simp only [not_exists, not_and, not_not] at endless
    have active := endless _ (Nat.le_refl _)
    have counter := rounds_freely _ fun made before => endless made (Nat.le_of_lt before)
    rw [freely_eq_calls] at active counter
    generalize List.replicate _ (Call.step environment) = made at active counter
    have few := (derived_calls config.unlimited set made).recorded.size_le (valid_calls valid made)
    have many := (counted_calls config.unlimited set made).added
    have bound : (start config set).roundBound = 3 ^ set.atoms.length + 1 := rfl
    rw [if_pos active, counter] at many
    omega
  obtain ⟨last, ⟨bounded, ended⟩, earlier⟩ := exists_first ends
  refine ⟨last, bounded, ?_, ended⟩
  intro rounds before
  by_contra finished
  exact earlier rounds before ⟨by omega, finished⟩

variable {last : Nat}

theorem EndsWith.pos (ends : EndsWith config environment set last) : 0 < last := by
  rw [Nat.pos_iff_ne_zero]
  intro none
  have ended := ends.ended
  rw [none] at ended
  exact ended rfl

theorem EndsWith.unique {other : Nat} (ends : EndsWith config environment set last)
    (ends' : EndsWith config environment set other) : other = last := by
  rcases Nat.lt_trichotomy last other with before | same | after
  · exact absurd (ends'.active last before) ends.ended
  · exact same.symm
  · exact absurd (ends.active other after) ends'.ended

theorem EndsWith.active_of_cut (ends : EndsWith config environment set last) (rounds : Nat)
    (before : rounds < last) {limited : Engine} {exhausted : Option Budget}
    (cut : limited = { freely config environment set rounds with config, exhausted }) :
    limited.report = .unknown ∧ limited.state = .active := by
  have active : limited.state = .active := by
    rw [cut]
    exact ends.active rounds before
  exact ⟨(report_eq_unknown_iff limited).mpr active, active⟩

theorem EndsWith.bounded (ends : EndsWith config environment set last) (valid : set.Valid) :
    last ≤ (start config set).roundBound := by
  obtain ⟨other, bounded, ends'⟩ := exists_last config environment valid
  rw [← ends'.unique ends] at bounded
  exact bounded

theorem EndsWith.set_eq (ends : EndsWith config environment set last) :
    (freely config environment set (last - 1)).set = (freely config environment set last).set := by
  obtain ⟨earlier, rfl⟩ := Nat.exists_eq_succ_of_ne_zero (Nat.ne_of_gt ends.pos)
  have ended := ends.ended
  rw [freely_succ] at ended ⊢
  exact (set_eq_of_round (round_step environment _) ended).symm

/-- A run under limits, as long as it goes on, is the run without them. -/
theorem run_start_add (rounds left : Nat)
    (going : ∀ made < rounds, (freely config environment set made).state = .active ∧
      ({ freely config environment set made with config } : Engine).exceeded environment = none) :
    (start config set).run environment (rounds + left) =
      ({ freely config environment set rounds with config } : Engine).run environment left := by
  induction rounds generalizing left with
  | zero => rw [Nat.zero_add]; rfl
  | succ rounds ih =>
      obtain ⟨active, free⟩ := going rounds (Nat.lt_succ_self rounds)
      have workers : config.workers = (freely config environment set rounds).config.workers := by
        rw [config_freely]
        rfl
      rw [Nat.add_right_comm, Nat.add_assoc, ih _ fun made before => going made (by omega), run,
        free, step_config environment _ config workers, ← freely_succ]
      simp only [active]

theorem refute_eq_of_free (valid : set.Valid) (ends : EndsWith config environment set last)
    (free : ∀ rounds < last,
      ({ freely config environment set rounds with config } : Engine).exceeded environment = none) :
    (start config set).refute environment =
      { freely config environment set last with config } := by
  obtain ⟨left, bound⟩ := Nat.exists_eq_add_of_le (ends.bounded valid)
  rw [refute, bound,
    run_start_add last left fun rounds before => ⟨ends.active rounds before, free rounds before⟩]
  exact run_of_ne_active _ _ _ ends.ended

theorem refute_eq_of_exceeded (valid : set.Valid) (ends : EndsWith config environment set last)
    (rounds : Nat) (before : rounds < last)
    (free : ∀ made < rounds,
      ({ freely config environment set made with config } : Engine).exceeded environment = none)
    (budget : Budget)
    (limit : ({ freely config environment set rounds with config } : Engine).exceeded environment =
      some budget) :
    (start config set).refute environment =
      { freely config environment set rounds with config, exhausted := some budget } := by
  obtain ⟨left, bound⟩ := Nat.exists_eq_add_of_lt (Nat.lt_of_lt_of_le before (ends.bounded valid))
  have active := ends.active rounds before
  rw [refute, bound, Nat.add_assoc, run_start_add rounds (left + 1) fun made earlier =>
    ⟨ends.active made (Nat.lt_trans earlier before), free made earlier⟩, run, limit]
  simp only [active]

/-- Whatever the limits, a run is the one without them or ends as this one stood before
some round. -/
theorem refute_cases (valid : set.Valid) (ends : EndsWith config environment set last) :
    (start config set).refute environment = { freely config environment set last with config } ∨
      ∃ rounds < last, ∃ budget, (start config set).refute environment =
        { freely config environment set rounds with config, exhausted := some budget } := by
  by_cases free : ∀ rounds < last,
      ({ freely config environment set rounds with config } : Engine).exceeded environment = none
  · exact Or.inl (refute_eq_of_free valid ends free)
  · simp only [not_forall, ← ne_eq, Option.ne_none_iff_exists'] at free
    obtain ⟨rounds, ⟨before, budget, limit⟩, first⟩ := exists_first free
    refine Or.inr ⟨rounds, before, budget, refute_eq_of_exceeded valid ends rounds before ?_ budget
      limit⟩
    intro made earlier
    by_contra reached
    exact first made earlier
      ⟨Nat.lt_trans earlier before, Option.ne_none_iff_exists'.mp reached⟩

theorem exceeded_freely (ends : EndsWith config environment set last)
    (unhurried : environment.Unhurried config.timeLimit) (rounds : Nat) (before : rounds ≤ last) :
    ({ freely config environment set rounds with config } : Engine).exceeded environment =
      if config.roundLimit.any (· ≤ rounds) then some .rounds
      else if config.clauseLimit.any (· < (freely config environment set rounds).set.size) then
        some .clauses
      else none := by
  have counter := rounds_freely rounds fun made earlier =>
    ends.active made (Nat.lt_of_lt_of_le earlier before)
  rw [exceeded, counter, unhurried rounds]
  rfl

theorem exceeded_eq_none_iff (ends : EndsWith config environment set last)
    (unhurried : environment.Unhurried config.timeLimit) (rounds : Nat) (before : rounds ≤ last) :
    ({ freely config environment set rounds with config } : Engine).exceeded environment = none ↔
      ¬ config.Stops rounds (freely config environment set rounds).set.size := by
  rw [exceeded_freely ends unhurried rounds before, Config.Stops]
  split
  · simp_all
  · split <;> simp_all

/-- The limits are those of every round: as many rounds are made as are needed, and the
set is never larger than before the last. -/
theorem admits_iff (ends : EndsWith config environment set last) :
    config.Admits last (freely config environment set (last - 1)).set.size ↔
      ∀ rounds < last, ¬ config.Stops rounds (freely config environment set rounds).set.size := by
  have positive := ends.pos
  simp only [Config.not_stops_iff]
  constructor
  · intro admits rounds before
    exact admits.mono before (monotone_size_freely config environment set (by omega))
  · intro each
    have final := each (last - 1) (by omega)
    rw [Nat.sub_add_cancel positive] at final
    exact final

theorem refute_of_admits (valid : set.Valid) (ends : EndsWith config environment set last)
    (unhurried : environment.Unhurried config.timeLimit)
    (admits : config.Admits last (freely config environment set (last - 1)).set.size) :
    (start config set).refute environment =
      { freely config environment set last with config } := by
  apply refute_eq_of_free valid ends
  intro rounds before
  rw [exceeded_eq_none_iff ends unhurried rounds (Nat.le_of_lt before)]
  exact (admits_iff ends).mp admits rounds before

theorem refute_of_not_admits (valid : set.Valid) (ends : EndsWith config environment set last)
    (unhurried : environment.Unhurried config.timeLimit)
    (short : ¬ config.Admits last (freely config environment set (last - 1)).set.size) :
    ∃ rounds < last, config.Stops rounds (freely config environment set rounds).set.size ∧
      (∀ made < rounds, ¬ config.Stops made (freely config environment set made).set.size) ∧
      (start config set).refute environment =
        { freely config environment set rounds with
          config
          exhausted := some
            (if config.roundLimit.any (· ≤ rounds) then .rounds else .clauses) } := by
  simp only [admits_iff ends, not_forall, not_not] at short
  obtain ⟨rounds, ⟨before, stops⟩, first⟩ := exists_first short
  have earlier : ∀ made < rounds,
      ¬ config.Stops made (freely config environment set made).set.size :=
    fun made less reached => first made less ⟨Nat.lt_trans less before, reached⟩
  refine ⟨rounds, before, stops, earlier, refute_eq_of_exceeded valid ends rounds before ?_ _ ?_⟩
  · intro made less
    rw [exceeded_eq_none_iff ends unhurried made (by omega)]
    exact earlier made less
  · rw [exceeded_freely ends unhurried rounds (Nat.le_of_lt before)]
    split
    · rfl
    · rename_i rounds
      exact if_pos (stops.resolve_left rounds)

theorem refute_of_expired (config : Config) (environment : Environment) (set : ClauseSet)
    (expired : environment.Expired config.timeLimit) :
    (start config set).refute environment = { start config set with exhausted := some .time } := by
  have limit : (start config set).exceeded environment = some .time := if_pos expired
  rw [refute, roundBound, run, limit]
  rfl

theorem refute_unlimited (valid : set.Valid) (ends : EndsWith config environment set last) :
    (start config.unlimited set).refute environment = freely config environment set last := by
  have whole : (start config.unlimited set).refute environment =
      { freely config environment set last with config := config.unlimited } :=
    refute_eq_of_free valid ⟨ends.active, ends.ended⟩
      fun rounds _ => exceeded_of_unlimited environment _ ⟨rfl, rfl, rfl⟩
  rw [whole, ← config_freely config environment set last]

end

/-- What becomes of a run under limits, told by the run without them, which is over with the
round `last`. -/
structure CutShort (config : Config) (environment : Environment) (set : ClauseSet) (last : Nat)
    (limited : Engine) : Prop where
  ends : EndsWith config environment set last
  unlimited : (start config.unlimited set).refute environment =
    freely config environment set last
  grows : ∀ rounds, (freely config environment set rounds).set.size ≤
    (freely config environment set (rounds + 1)).set.size
  final : (freely config environment set (last - 1)).set = (freely config environment set last).set
  /-- The run comes to its end exactly if the limits are those of all its rounds. -/
  whole_iff : environment.Unhurried config.timeLimit →
    ((limited.report = (freely config environment set last).report ∧
        limited.state = (freely config environment set last).state ∧
        limited.set = (freely config environment set last).set ∧
        limited.derivation = (freely config environment set last).derivation) ↔
      config.Admits last (freely config environment set (last - 1)).set.size)
  whole : environment.Unhurried config.timeLimit →
    config.Admits last (freely config environment set (last - 1)).set.size →
      limited = { freely config environment set last with config }
  /-- Otherwise it stands as after the first rounds which do reach one. -/
  cut : environment.Unhurried config.timeLimit →
    ¬ config.Admits last (freely config environment set (last - 1)).set.size →
      ∃ rounds < last, config.Stops rounds (freely config environment set rounds).set.size ∧
        (∀ made < rounds, ¬ config.Stops made (freely config environment set made).set.size) ∧
        limited.report = .unknown ∧ limited.state = .active ∧
        limited = { freely config environment set rounds with
          config
          exhausted := some
            (if config.roundLimit.any (· ≤ rounds) then .rounds else .clauses) }
  expired : environment.Expired config.timeLimit →
    limited.report = .unknown ∧ limited = { start config set with exhausted := some .time }

theorem cutShort_refute (config : Config) (environment : Environment) {set : ClauseSet}
    (valid : set.Valid) :
    ∃ last, CutShort config environment set last ((start config set).refute environment) := by
  obtain ⟨last, _, ends⟩ := exists_last config environment valid
  refine ⟨last, ends, refute_unlimited valid ends, ?grows, ends.set_eq, ?whole_iff, ?whole, ?cut,
    ?expired⟩
  case grows => exact fun rounds => monotone_size_freely config environment set (Nat.le_succ rounds)
  case whole_iff =>
    intro unhurried
    constructor
    · intro ⟨_, state, _⟩
      by_contra short
      obtain ⟨rounds, before, _, _, cut⟩ := refute_of_not_admits valid ends unhurried short
      exact ends.ended (state.symm.trans (ends.active_of_cut rounds before cut).2)
    · intro admits
      rw [refute_of_admits valid ends unhurried admits]
      exact ⟨rfl, rfl, rfl, rfl⟩
  case whole => exact fun unhurried admits => refute_of_admits valid ends unhurried admits
  case cut =>
    intro unhurried short
    obtain ⟨rounds, before, stops, first, cut⟩ := refute_of_not_admits valid ends unhurried short
    obtain ⟨report, active⟩ := ends.active_of_cut rounds before cut
    exact ⟨rounds, before, stops, first, report, active, cut⟩
  case expired =>
    intro expired
    rw [refute_of_expired config environment set expired]
    exact ⟨rfl, rfl⟩

theorem Alike.verdict {engine other : Engine} (alike : Alike engine other) :
    other.verdict = engine.verdict := by
  rw [Engine.verdict, alike.report, alike.exhausted]
  rfl

/-- The verdict is that of any run without limits, whatever its workers, or it is the limit
which was reached. -/
theorem verdict_cases (config again : Config) (unlimited : again.Unlimited)
    (environment other : Environment) {set : ClauseSet} (valid : set.Valid) :
    (((start config set).refute environment).verdict =
          ((start again set).refute other).verdict ∧
        ((start config set).refute environment).set = ((start again set).refute other).set) ∨
      ∃ budget, ((start config set).refute environment).verdict = .error budget := by
  obtain ⟨last, _, ends⟩ := exists_last config environment valid
  rcases refute_cases valid ends with whole | ⟨rounds, before, budget, cut⟩
  · have same : { config.unlimited with workers := again.workers } = again := by
      obtain ⟨time, rounds, clauses⟩ := unlimited
      cases again
      simp_all [Config.unlimited]
    have alike : Alike ((start config.unlimited set).refute environment)
        ((start again set).refute other) :=
      (same ▸ alike_start config.unlimited again.workers set).call
        (.refute environment other fun _ => rfl)
    rw [refute_unlimited valid ends] at alike
    rw [alike.verdict, alike.set, whole]
    exact Or.inl ⟨rfl, rfl⟩
  · refine Or.inr ⟨budget, ?_⟩
    rw [verdict, (ends.active_of_cut rounds before cut).1, cut]
    rfl

end Engine
end Clausal
