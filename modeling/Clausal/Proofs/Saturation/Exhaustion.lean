import Clausal.Proofs.Saturation.Limits

set_option autoImplicit false

namespace Clausal

theorem ClauseSet.length_atoms_le_of_kept {set later : ClauseSet}
    (kept : set.toList <+: later.toList) : set.atoms.length ≤ later.atoms.length := by
  have apart : set.atoms.Nodup := Ordered.nodup_distinct _
  apply List.Subperm.length_le
  apply apart.subperm
  intro atom member
  rw [atoms, Ordered.mem_distinct, List.mem_flatMap] at member ⊢
  obtain ⟨clause, inside, named⟩ := member
  exact ⟨clause, kept.subset inside, named⟩

namespace Engine

def stop? (environment : Environment) (engine : Engine) : Option Budget :=
  if (engine.refute environment).report = .unknown then
    (engine.refute environment).exceeded environment
  else none

def callStop? (engine : Engine) : Call → Option Budget
  | .step _ => none
  | .refute environment => engine.stop? environment

/-- The limits which stop the refutations among the calls, in order. -/
def stops (engine : Engine) : List Call → List Budget
  | [] => []
  | next :: rest => (engine.callStop? next).toList ++ (engine.call next).stops rest

theorem exhausted_run (environment : Environment) (rounds : Nat) (engine : Engine)
    (ended : (engine.run environment rounds).state ≠ .active) :
    (engine.run environment rounds).exhausted = engine.exhausted := by
  induction rounds generalizing engine with
  | zero => rfl
  | succ rounds ih =>
      by_cases active : engine.state = .active
      · cases limit : engine.exceeded environment with
        | some budget =>
            simp only [run, active, limit] at ended
            exact absurd rfl ended
        | none =>
            simp only [run, active, limit] at ended ⊢
            rw [ih _ ended, (unchanged_of_round (round_step environment engine)).2]
      · rw [run_of_ne_active environment _ engine active]

/-- Whatever is called before and whatever the clauses repeat, the bound on the rounds is
never what ends a refutation. -/
theorem stopped_refute_calls (config : Config) {set : ClauseSet} (valid : set.Valid)
    (made : List Call) (environment : Environment) :
    Stopped environment (((start config set).calls made).refute environment) := by
  have few : ∀ more, (((start config set).calls made).calls more).set.size ≤
      set.size + 3 ^ set.atoms.length := by
    intro more
    have both : ((start config set).calls made).calls more =
        (start config set).calls (made ++ more) :=
      List.foldl_append.symm
    rw [both]
    exact (derived_calls config set _).recorded.size_le (valid_calls valid _)
  have kept : set.toList <+: ((start config set).calls made).set.toList :=
    kept_calls (start config set) made
  generalize (start config set).calls made = engine at few kept
  have larger := ClauseSet.size_le_of_kept kept
  have power : 3 ^ set.atoms.length ≤ 3 ^ engine.set.atoms.length :=
    Nat.pow_le_pow_right (by decide) (ClauseSet.length_atoms_le_of_kept kept)
  have bound : engine.roundBound = 3 ^ engine.set.atoms.length + 1 := rfl
  exact stopped_run environment _ _ engine few (by omega)

section

variable (config : Config) {set : ClauseSet} (valid : set.Valid) (made : List Call)

include valid

/-- A refutation is left open by a limit and by nothing else. -/
theorem report_eq_unknown_iff_stop? (environment : Environment) :
    (((start config set).calls made).refute environment).report = .unknown ↔
      ((start config set).calls made).stop? environment ≠ none := by
  rw [stop?]
  split
  · rename_i unknown
    rcases stopped_refute_calls config valid made environment with ended | ⟨budget, limit, _⟩
    · exact absurd ((report_eq_unknown_iff _).mp unknown) ended
    · simp [unknown, limit]
  · rename_i known
    simp [known]

theorem exhausted_call (next : Call) :
    (((start config set).calls made).call next).exhausted =
      (((start config set).calls made).callStop? next).or
        ((start config set).calls made).exhausted := by
  cases next with
  | step environment => exact (unchanged_of_round (round_step environment _)).2
  | refute environment =>
      rw [call, callStop?, stop?]
      split
      · rename_i unknown
        rcases stopped_refute_calls config valid made environment with ended | ⟨_, limit, noted⟩
        · exact absurd ((report_eq_unknown_iff _).mp unknown) ended
        · rw [limit, noted]
          rfl
      · rename_i known
        rw [report_eq_unknown_iff] at known
        exact exhausted_run environment _ _ known

theorem exhausted_calls_append (rest : List Call) :
    ((start config set).calls (made ++ rest)).exhausted =
      (((start config set).calls made).stops rest).getLast?.or
        ((start config set).calls made).exhausted := by
  -- Each of the calls to come notes its own limit over the earlier.
  induction rest generalizing made with
  | nil => simp [stops]
  | cons next rest ih =>
      have one : (start config set).calls (made ++ [next]) =
          ((start config set).calls made).call next :=
        List.foldl_append
      have each := ih (made ++ [next])
      rw [List.append_assoc, List.singleton_append, one, exhausted_call config valid made next]
        at each
      rw [each, stops, List.getLast?_append, Option.or_assoc]
      cases ((start config set).calls made).callStop? next <;> rfl

theorem exhausted_calls :
    ((start config set).calls made).exhausted = ((start config set).stops made).getLast? := by
  have whole := exhausted_calls_append config valid [] made
  rw [List.nil_append] at whole
  exact whole.trans Option.or_none

end

/-- After a refutation the limit noted is its own, or if none has stopped it, that of the last
before it to be stopped. So it tells of the last refutation exactly where there is no earlier
one to tell of, or the last is stopped as well. -/
theorem exhausted_refute (clauses : List Clause) (config : Config) (made : List Call)
    (environment : Environment) :
    let initial := start config (.ofList clauses)
    let before := initial.calls made
    let after := before.refute environment
    after.exhausted = (before.stop? environment).or (initial.stops made).getLast? ∧
      (after.report = .unknown ↔ before.stop? environment ≠ none) ∧
      ((after.exhausted.isSome = true ↔ after.report = .unknown) ↔
        (initial.stops made ≠ [] → after.report = .unknown)) := by
  intro initial before after
  have valid := ClauseSet.valid_ofList clauses
  have noted : after.exhausted = (before.stop? environment).or (initial.stops made).getLast? := by
    have last := exhausted_call config valid made (.refute environment)
    rw [exhausted_calls config valid made] at last
    exact last
  have unknown : after.report = .unknown ↔ before.stop? environment ≠ none :=
    report_eq_unknown_iff_stop? config valid made environment
  refine ⟨noted, unknown, ?_⟩
  rw [noted, unknown]
  cases before.stop? environment with
  | some budget => simp
  | none => simp [List.getLast?_isSome]

/-- Once no round was allowed: the refutation is stopped, a step of the caller's finds nothing
to do, and the next refutation, which is over at once, is told as stopped. -/
theorem not_exhausted_refute :
    ¬ ∀ (clauses : List Clause) (config : Config) (made : List Call) (environment : Environment),
      let after := ((start config (.ofList clauses)).calls made).refute environment
      after.exhausted.isSome = true ↔ after.report = .unknown := by
  intro last
  have stale := last [⟨[⟨"p", false⟩]⟩] { roundLimit := some 0 } [.refute {}, .step {}] {}
  revert stale
  decide

end Engine
end Clausal
