import Clausal.Proofs.Resolve
import Clausal.Proofs.Saturation.Limits

set_option autoImplicit false

namespace Clausal

namespace ClauseSet

theorem ofList_toList (clauses : List Clause) : ofList (ofList clauses).toList = ofList clauses := by
  induction clauses using List.reverseRecOn with
  | nil => rfl
  | append_singleton clauses last ih =>
      rw [ofList_concat]
      rcases insert_cases (ofList clauses) last with ⟨_, same⟩ | ⟨_, _, _, added, _⟩
      · rw [same, ih]
      · rw [added, ofList_concat, ih]

/-- A set which was read is read again from what is written for it, keys and all. -/
theorem ofFormula_toFormula (node : Formula) (set : ClauseSet) (read : ofFormula node = .ok set) :
    ofFormula set.toFormula = .ok set := by
  obtain ⟨again, read', written⟩ := (canonical_of_ofFormula node set read).ofFormula
  obtain ⟨lists, _, _, made⟩ := (ofFormula_eq_ok node set).mp read
  obtain ⟨lists', _, _, made'⟩ := (ofFormula_eq_ok _ again).mp read'
  have same : again = set := by
    calc
      again = ofList again.toList := by rw [made', ofList_toList]
      _ = ofList set.toList := by rw [toList_eq_of_toFormula again set written]
      _ = set := by rw [made, ofList_toList]
  rw [read', same]

theorem valid_of_ofFormula (node : Formula) (set : ClauseSet) (read : ofFormula node = .ok set) :
    set.Valid :=
  (normal_of_ofFormula node set read).toValid

end ClauseSet

namespace Engine

/-- Two runs from one set with one configuration, if their times are up at once or never. -/
theorem refute_of_times (config : Config) {environment other : Environment} (set : ClauseSet)
    (times : (environment.Expired config.timeLimit ∧ other.Expired config.timeLimit) ∨
      (environment.Unhurried config.timeLimit ∧ other.Unhurried config.timeLimit)) :
    ((start config set).refute other).verdict = ((start config set).refute environment).verdict ∧
      ((start config set).refute other).set = ((start config set).refute environment).set := by
  rcases times with ⟨expired, expired'⟩ | ⟨unhurried, unhurried'⟩
  · rw [refute_of_expired config environment set expired,
      refute_of_expired config other set expired']
    exact ⟨rfl, rfl⟩
  · have alike := (alike_start config config.workers set).call
      (.refute environment other fun rounds => (unhurried rounds).trans (unhurried' rounds).symm)
    exact ⟨alike.verdict, alike.set⟩

/-- An answer told by the verdict of a run and the clauses at its end, or the limit. -/
def answer {α : Type} (told : Bool → ClauseSet → α) (engine : Engine) : Except Failure α :=
  (engine.verdict.mapError .exhausted).map (told · engine.set)

theorem answer_cases {α : Type} (told : Bool → ClauseSet → α) (config again : Config)
    (unlimited : again.Unlimited) (environment other : Environment) {set : ClauseSet}
    (valid : set.Valid) :
    ((start config set).refute environment).answer told =
        ((start again set).refute other).answer told ∨
      ∃ budget, ((start config set).refute environment).answer told =
        .error (.exhausted budget) := by
  unfold answer
  rcases verdict_cases config again unlimited environment other valid with
    ⟨verdict, same⟩ | ⟨budget, limit⟩
  · rw [verdict, same]
    exact Or.inl rfl
  · rw [limit]
    exact Or.inr ⟨budget, rfl⟩

end Engine

namespace Formula

theorem ofFormula_of_collapseToClauseSet (formula : Formula) (set : ClauseSet)
    (success : formula.collapseToClauseSet = .ok set) :
    ClauseSet.ofFormula formula.flattened = .ok set := by
  rw [collapseToClauseSet, bind_eq_ok] at success
  obtain ⟨_, _, read⟩ := success
  exact (lift_eq_ok _ _).mp read

theorem ofFormula_of_clauseSet (formula : Formula) (set : ClauseSet)
    (success : formula.clauseSet = .ok set) : ClauseSet.ofFormula set.toFormula = .ok set := by
  rw [clauseSet, bind_eq_ok] at success
  obtain ⟨distributed, _, collapsed⟩ := success
  exact ClauseSet.ofFormula_toFormula _ set (ofFormula_of_collapseToClauseSet distributed set collapsed)

theorem resolve_of_ofFormula (config : Config) (environment : Environment) (formula : Formula)
    (set : ClauseSet) (read : ClauseSet.ofFormula formula = .ok set) :
    formula.resolve config environment =
      ((Engine.start config set).refute environment).answer
        fun refuted closed => (refuted, closed.toFormula) := by
  rw [resolve, read, lift_ok, ok_bind, Engine.answer]
  dsimp only
  cases ((Engine.start config set).refute environment).verdict <;> rfl

theorem satisfiable_of_clauseSet (config : Config) (environment : Environment) (formula : Formula)
    (set : ClauseSet) (success : formula.clauseSet = .ok set) :
    formula.satisfiable config environment =
      ((Engine.start config set).refute environment).answer fun refuted _ => !refuted := by
  rw [satisfiable, success, ok_bind, Engine.answer]
  cases ((Engine.start config set).refute environment).verdict <;> rfl

theorem normalForm_eq_toFormula (formula : Formula) (set : ClauseSet)
    (success : formula.clauseSet = .ok set) : formula.normalForm = .ok set.toFormula := by
  rw [normalForm, success]
  rfl

/-- The answer given directly is that of the formula written in between, and so is the cause
for which none is given. -/
theorem satisfiable_eq_resolve (config : Config) (environment other : Environment)
    (times : (environment.Expired config.timeLimit ∧ other.Expired config.timeLimit) ∨
      (environment.Unhurried config.timeLimit ∧ other.Unhurried config.timeLimit))
    (formula : Formula) :
    ((∃ failure, formula.satisfiable config environment = .error failure ∧
          (formula.normalForm >>= fun normal => normal.resolve config other) = .error failure) ∨
        ∃ set answer, formula.clauseSet = .ok set ∧
          formula.satisfiable config environment = .ok answer ∧
          (formula.normalForm >>= fun normal => normal.resolve config other) =
            .ok (!answer, ((Engine.start config set).refute environment).set.toFormula)) ∧
      ∀ (source : Formula) (set : ClauseSet), source.collapseToClauseSet = .ok set →
        ClauseSet.ofFormula set.toFormula = .ok set := by
  constructor
  · cases given : formula.clauseSet with
    | error failure =>
        rw [(normalForm_of_clauseSet formula failure).mpr given, satisfiable, given]
        exact Or.inl ⟨failure, rfl, rfl⟩
    | ok set =>
        obtain ⟨verdict, unchanged⟩ := Engine.refute_of_times config set times
        rw [normalForm_eq_toFormula formula set given, ok_bind,
          resolve_of_ofFormula config other _ set (ofFormula_of_clauseSet formula set given),
          satisfiable_of_clauseSet config environment formula set given, Engine.answer,
          Engine.answer, verdict, unchanged]
        cases ((Engine.start config set).refute environment).verdict with
        | error budget => exact Or.inl ⟨.exhausted budget, rfl, rfl⟩
        | ok refuted =>
            refine Or.inr ⟨set, !refuted, rfl, rfl, ?_⟩
            rw [Bool.not_not]
            rfl
  · intro source set success
    exact ClauseSet.ofFormula_toFormula _ set (ofFormula_of_collapseToClauseSet source set success)

/-- One of the clauses is a tautology, and the second run takes its workers in another order.
The set which is read again has lost a tautology, too. -/
theorem satisfiable_eq_resolve_tautology :
    let formula : Formula := .and [.or [.and [.atom "p", .atom "q"], .not (.atom "p")],
      .condition (.atom "q") (.not (.atom "p")), .atom "p"]
    let config : Config := { roundLimit := some 3, workers := 2 }
    let late : Environment := { clock := id, schedule := fun _ => [⟨1, false⟩] }
    let source : Formula := .and [.atom "q", .or [.atom "p", .or [.not (.atom "p")]],
      .or [.not (.atom "q"), .atom "p", .not (.atom "q")]]
    let kept := ClauseSet.ofList [⟨[⟨"q", false⟩]⟩, ⟨[⟨"q", true⟩, ⟨"p", false⟩]⟩]
    Environment.Unhurried config.timeLimit {} ∧ late.Unhurried config.timeLimit ∧
      formula.satisfiable config {} = .ok false ∧
      (∃ set, formula.clauseSet = .ok set ∧ set.size = 3 ∧
        (formula.normalForm >>= fun normal => normal.resolve config late) =
          .ok (true, ((Engine.start config set).refute {}).set.toFormula)) ∧
      source.collapseToClauseSet = .ok kept ∧ ClauseSet.ofFormula kept.toFormula = .ok kept := by
  intro formula config late source kept
  have time : Environment.Unhurried config.timeLimit {} := fun _ => rfl
  have time' : late.Unhurried config.timeLimit := fun _ => rfl
  have direct : formula.satisfiable config {} = .ok false := by
    dsimp only [formula, config]
    rfl
  have collapsed : source.collapseToClauseSet = .ok kept := by rfl
  obtain ⟨routes, again⟩ := satisfiable_eq_resolve config {} late (Or.inr ⟨time, time'⟩) formula
  refine ⟨time, time', direct, ?_, collapsed, again source kept collapsed⟩
  rcases routes with ⟨failure, refused, _⟩ | ⟨set, answer, success, given, route⟩
  · rw [direct] at refused
    cases refused
  · rw [direct, Except.ok.injEq] at given
    subst given
    refine ⟨set, success, ?_, route⟩
    have size : formula.clauseSet.map ClauseSet.size = .ok 3 := by rfl
    rw [success] at size
    exact Except.ok.inj size

/-- Under any limits a run is the one without them up to the round before which the first is
reached, and formulas have the answer they have without limits or none. -/
theorem limits_cut_short (clauses : List Clause) (config : Config) (environment : Environment) :
    (∃ last, Engine.CutShort config environment (.ofList clauses) last
        ((Engine.start config (.ofList clauses)).refute environment)) ∧
      ∀ (again : Config) (other : Environment), again.Unlimited → ∀ formula : Formula,
        (formula.resolve config environment = formula.resolve again other ∨
            ∃ budget, formula.resolve config environment = .error (.exhausted budget)) ∧
          (formula.satisfiable config environment = formula.satisfiable again other ∨
            ∃ budget, formula.satisfiable config environment = .error (.exhausted budget)) := by
  refine ⟨Engine.cutShort_refute config environment (ClauseSet.valid_ofList clauses), ?_⟩
  intro again other unlimited formula
  constructor
  case left =>
    cases read : ClauseSet.ofFormula formula with
    | error cause =>
        rw [resolve, resolve, read]
        exact Or.inl rfl
    | ok set =>
        rw [resolve_of_ofFormula config environment formula set read,
          resolve_of_ofFormula again other formula set read]
        exact Engine.answer_cases _ config again unlimited environment other
          (ClauseSet.valid_of_ofFormula formula set read)
  case right =>
    cases given : formula.clauseSet with
    | error failure =>
        rw [satisfiable, satisfiable, given]
        exact Or.inl rfl
    | ok set =>
        rw [satisfiable_of_clauseSet config environment formula set given,
          satisfiable_of_clauseSet again other formula set given]
        exact Engine.answer_cases _ config again unlimited environment other
          (ClauseSet.valid_of_ofFormula _ set (ofFormula_of_clauseSet formula set given))

/-- Two rounds are needed, and the second of them begins with one clause too many. -/
theorem limits_cut_short_by_clauses :
    let clauses := [[⟨"p", false⟩], [⟨"p", true⟩, ⟨"q", false⟩], [⟨"q", true⟩]].map Clause.ofList
    let formula : Formula := .and [.or [.atom "p"], .or [.not (.atom "p"), .atom "q"],
      .or [.not (.atom "q")]]
    let config : Config := { roundLimit := some 2, clauseLimit := some 4 }
    let engine := (Engine.start config (.ofList clauses)).refute {}
    let first := Engine.freely config {} (.ofList clauses) 1
    Engine.CutShort config {} (.ofList clauses) 2 engine ∧
      Environment.Unhurried config.timeLimit {} ∧ ¬ config.Admits 2 first.set.size ∧
      engine.report = .unknown ∧ engine = { first with config, exhausted := some .clauses } ∧
      Config.Unlimited {} ∧ formula.resolve config {} = .error (.exhausted .clauses) ∧
      (formula.resolve config {} = formula.resolve {} {} ∨
        ∃ budget, formula.resolve config {} = .error (.exhausted budget)) := by
  intro clauses formula config engine first
  have ends : Engine.EndsWith config {} (.ofList clauses) 2 := by
    refine ⟨?_, ?_⟩
    · decide
    · decide
  obtain ⟨⟨last, cut⟩, answers⟩ := limits_cut_short clauses config {}
  rw [ends.unique cut.ends] at cut
  have short : ¬ config.Admits 2 first.set.size := by
    intro admits
    exact absurd admits.2 (by decide)
  obtain ⟨rounds, before, stops, _, report, _, same⟩ := cut.cut (fun _ => rfl) short
  have once : rounds = 1 := by
    by_contra other
    have none : rounds = 0 := by omega
    rw [none] at stops
    exact absurd stops (by unfold Config.Stops; decide)
  rw [once] at same
  have refused : formula.resolve config {} = .error (.exhausted .clauses) := by
    dsimp only [formula, config]
    rfl
  exact ⟨cut, fun _ => rfl, short, report, same, ⟨rfl, rfl, rfl⟩, refused,
    (answers {} {} ⟨rfl, rfl, rfl⟩ formula).1⟩

end Formula
end Clausal
