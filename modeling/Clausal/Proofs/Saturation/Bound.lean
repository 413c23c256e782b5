import Clausal.Proofs.Saturation.Growth

set_option autoImplicit false

namespace Clausal.Engine

def RoundMade.scan (round : RoundMade) : Scan :=
  round.before.nextScan round.environment

/-- A round after which there is more to do has added all it has staged. -/
theorem RoundMade.toList_after (round : RoundMade) (active : round.before.state = .active)
    (unfinished : round.after.state = .active) :
    round.after.set.toList =
      round.before.set.toList ++ round.scan.staged.toList.map Staged.clause := by
  have made : round.after = _ := step_of_active round.environment round.before active
  rw [made] at unfinished ⊢
  split at unfinished
  · cases unfinished
  · split at unfinished
    · cases unfinished
    · rename_i free busy
      rw [if_neg busy]
      exact toList_of_faithful round.before round.scan (faithful_nextScan _ _)

theorem rounds_of_round {engine later : Engine} (round : Round engine later)
    (active : engine.state = .active) : later.rounds = engine.rounds + 1 := by
  cases round with
  | finished ended => exact absurd active ended
  | conflict => rfl
  | saturated => rfl
  | grown scan =>
      obtain ⟨_, _, _, same⟩ := foldl_addStaged_eq scan.staged.toList (engine.scanned scan)
      rw [same]
      rfl

/-- The account of a run: its counter counts its rounds, each of which was made when
there was more to do, and all rounds but one that ended it have added a clause. -/
structure Counted (initial : ClauseSet) (engine : Engine) (past : List RoundMade) : Prop where
  rounds : engine.rounds = past.length
  active : ∀ round ∈ past, round.before.state = .active
  added : engine.rounds + initial.size ≤
    engine.set.size + if engine.state = .active then 0 else 1

theorem counted_start (config : Config) (set : ClauseSet) : Counted set (start config set) [] where
  rounds := rfl
  active _ member := by cases member
  added := Nat.le_of_eq (Nat.zero_add _)

theorem Counted.after {initial : ClauseSet} {past : List RoundMade} (round : RoundMade)
    (counted : Counted initial round.before past) (active : round.before.state = .active) :
    Counted initial round.after (past ++ [round]) := by
  have made : Round round.before round.after := round_step round.environment round.before
  have counter := rounds_of_round made active
  constructor
  · rw [counter, counted.rounds, List.length_append, List.length_singleton]
  · intro other member
    rcases List.mem_append.mp member with earlier | last
    · exact counted.active other earlier
    · rw [List.mem_singleton.mp last]
      exact active
  · have before := counted.added
    rw [if_pos active] at before
    split
    · rename_i unfinished
      have larger := size_lt_of_round made unfinished
      omega
    · have larger := ClauseSet.size_le_of_kept (kept_of_round made)
      omega

theorem counted_calls (config : Config) (set : ClauseSet) (made : List Call) :
    Counted set ((start config set).calls made) ((start config set).history made) := by
  apply history_induction (Counted set) _ _ made _ [] (counted_start config set)
  · exact fun round past active counted => counted.after round active
  · exact fun engine past budget counted => ⟨counted.rounds, counted.active, counted.added⟩

/-- For clauses over `n` names, whatever is called: the set keeps to the names and to
`3 ^ n` clauses, each round after which there is more to do adds all it has staged,
and so there are not many rounds; and a refutation ends by itself or at a limit. -/
theorem runs_bounded (names : List String) (lists : List (List Literal))
    (within : ∀ literals ∈ lists, ∀ literal ∈ literals, literal.atom ∈ names)
    (config : Config) (made : List Call) :
    let initial := ClauseSet.ofList (lists.map Clause.ofList)
    let engine := (start config initial).calls made
    let history := (start config initial).history made
    (∀ clause ∈ engine.set.toList, ∀ literal ∈ clause.literals, literal.atom ∈ names) ∧
      engine.set.size ≤ 3 ^ names.length ∧
      (∀ round ∈ history, round.after.state = .active →
        round.before.set.size < round.after.set.size ∧
          round.after.set.toList =
            round.before.set.toList ++ round.scan.staged.toList.map Staged.clause) ∧
      engine.rounds = history.length ∧
      engine.rounds ≤ 3 ^ names.length - initial.size + 1 ∧
      ∀ environment, Stopped environment (engine.refute environment) ∧
        (config.Unlimited → (engine.refute environment).report = .conflict ∨
          (engine.refute environment).report = .saturated) := by
  intro initial engine history
  have begun : initial.Normal names := by
    refine { ClauseSet.normal_ofList _ (Clause.nodup_of_mem_map_ofList lists) with within := ?_ }
    intro clause member literal inside
    obtain ⟨literals, listed, rfl⟩ :=
      List.mem_map.mp (ClauseSet.mem_of_mem_ofList _ clause member)
    exact within literals listed literal ((Clause.mem_ofList literal literals).mp inside)
  have normal : engine.set.Normal names := normal_calls begun made
  have counted : Counted initial engine history := counted_calls config initial made
  refine ⟨normal.within, normal.size_le, ?_, counted.rounds, ?_, ?_⟩
  · intro round member unfinished
    have active := counted.active round member
    exact ⟨size_lt_of_round (round_step _ _) unfinished, round.toList_after active unfinished⟩
  · have few := normal.size_le
    have many := counted.added
    split at many <;> omega
  · intro environment
    refine ⟨stopped_refute environment engine normal, fun unlimited => ?_⟩
    have ended := refute_ended environment config unlimited initial begun made
    cases report : (engine.refute environment).report with
    | conflict => exact Or.inl rfl
    | saturated => exact Or.inr rfl
    | unknown => exact absurd ((report_eq_unknown_iff _).mp report) ended

/-- From `p`, `!p || q` and `!q || r` two rounds add three clauses, and a third ends. -/
theorem runs_bounded_implications :
    let names := ["p", "q", "r"]
    let lists : List (List Literal) :=
      [[⟨"p", false⟩], [⟨"p", true⟩, ⟨"q", false⟩], [⟨"q", true⟩, ⟨"r", false⟩]]
    let config : Config := { workers := 2 }
    let engine := (start config (.ofList (lists.map Clause.ofList))).calls [.step {}, .refute {}]
    (∀ literals ∈ lists, ∀ literal ∈ literals, literal.atom ∈ names) ∧
      engine.state = .saturated ∧ engine.set.size = 6 ∧ engine.set.size ≤ 3 ^ 3 ∧
      engine.rounds = 3 ∧ engine.rounds ≤ 3 ^ 3 - 3 + 1 := by
  intro names lists config engine
  have within : ∀ literals ∈ lists, ∀ literal ∈ literals, literal.atom ∈ names := by decide
  obtain ⟨_, few, _, _, short, _⟩ := runs_bounded names lists within config [.step {}, .refute {}]
  exact ⟨within, by decide, by decide, few, by decide, short⟩

end Clausal.Engine
