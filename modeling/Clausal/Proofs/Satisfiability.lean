import Clausal.Decision
import Clausal.Proofs.NormalForm.Truth
import Clausal.Proofs.Saturation.Verdict

set_option autoImplicit false

namespace Clausal

theorem Engine.verdict_eq_ok (engine : Engine) (refuted : Bool) :
    engine.verdict = .ok refuted ↔
      (refuted = true ∧ engine.report = .conflict) ∨
        (refuted = false ∧ engine.report = .saturated) := by
  unfold verdict
  cases engine.report <;> cases refuted <;> simp

namespace Formula

/-- The clause set of a formula has no empty clause and says what the formula says. -/
theorem clauseSet_eq_ok (formula : Formula) (set : ClauseSet)
    (success : formula.clauseSet = .ok set) :
    (∀ valuation, set.evaluate valuation = formula.evaluate valuation) ∧
      ∃ lists : List (List Literal), [] ∉ lists ∧ set = .ofList (lists.map Clause.ofList) := by
  constructor
  · have normal : formula.normalForm = .ok set.toFormula := by
      rw [normalForm, success]
      rfl
    rw [normalForm_eq_passes] at normal
    have restates := Pass.restates_of_foldlM formula set.toFormula Pass.all normal
    intro valuation
    rw [← ClauseSet.evaluate_toFormula, restates.value]
  · rw [clauseSet, bind_eq_ok] at success
    obtain ⟨distributed, _, collapsed⟩ := success
    rw [collapseToClauseSet, bind_eq_ok] at collapsed
    obtain ⟨_, _, read⟩ := collapsed
    rw [lift_eq_ok] at read
    obtain ⟨lists, legible, _, same⟩ := (ClauseSet.ofFormula_eq_ok _ set).mp read
    exact ⟨lists, fun empty => (legible [] empty).1 rfl, same⟩

theorem satisfiable_eq_ok (config : Config) (environment : Environment) (formula : Formula)
    (answer : Bool) :
    formula.satisfiable config environment = .ok answer ↔
      ∃ set, formula.clauseSet = .ok set ∧
        ((Engine.start config set).refute environment).verdict = .ok !answer := by
  rw [satisfiable, bind_eq_ok]
  refine exists_congr fun set => and_congr_right fun _ => ?_
  cases ((Engine.start config set).refute environment).verdict with
  | error budget =>
      constructor
      · intro impossible
        cases impossible
      · intro impossible
        cases impossible
  | ok refuted =>
      change Except.ok (!refuted) = Except.ok answer ↔ _
      rw [Except.ok.injEq, Except.ok.injEq, Bool.not_eq_eq_eq_not]

/-- Whatever ends a run, an answer which is given is right. -/
theorem exists_evaluate_of_satisfiable (config : Config) (environment : Environment)
    (formula : Formula) (answer : Bool)
    (given : formula.satisfiable config environment = .ok answer) :
    answer = true ↔ ∃ valuation, formula.evaluate valuation = true := by
  obtain ⟨set, success, verdict⟩ := (satisfiable_eq_ok config environment formula answer).mp given
  obtain ⟨same, lists, inhabited, made⟩ := clauseSet_eq_ok formula set success
  have holds : ∀ valuation, set.HoldsInhabited valuation ↔ formula.evaluate valuation = true := by
    intro valuation
    rw [← same valuation, made, ClauseSet.holdsInhabited_ofList_iff,
      ClauseSet.ofInhabited_of_empty_not_mem lists inhabited]
  rcases (Engine.verdict_eq_ok _ _).mp verdict with ⟨refuted, conflict⟩ | ⟨refuted, saturated⟩
  · have fails := Engine.not_holdsInhabited_of_conflict [.refute environment] conflict
    simp only [holds] at fails
    constructor
    · intro impossible
      rw [impossible] at refuted
      cases refuted
    · intro ⟨valuation, given⟩
      exact absurd given (fails valuation)
  · have normal : set.Normal set.atoms := by
      rw [made]
      exact ClauseSet.normal_ofList _ (Clause.nodup_of_mem_map_ofList lists)
    have satisfied :=
      Engine.exists_holdsInhabited_of_saturated normal [.refute environment] saturated
    simp only [holds] at satisfied
    refine ⟨fun _ => satisfied, fun _ => ?_⟩
    simpa using refuted

/-- Without limits every formula which the passes accept is answered. -/
theorem exists_satisfiable_of_normalForm (config : Config) (unlimited : config.Unlimited)
    (environment : Environment) (formula normal : Formula)
    (success : formula.normalForm = .ok normal) :
    ∃ answer, formula.satisfiable config environment = .ok answer := by
  rw [normalForm, bind_eq_ok] at success
  obtain ⟨set, success, _⟩ := success
  obtain ⟨_, lists, _, made⟩ := clauseSet_eq_ok formula set success
  have valid := ClauseSet.valid_ofList (lists.map Clause.ofList)
  rw [← made] at valid
  rcases Engine.report_refute_eq valid unlimited environment with conflict | saturated
  · refine ⟨false, (satisfiable_eq_ok config environment formula false).mpr ⟨set, success, ?_⟩⟩
    exact (Engine.verdict_eq_ok _ _).mpr (Or.inl ⟨rfl, conflict⟩)
  · refine ⟨true, (satisfiable_eq_ok config environment formula true).mpr ⟨set, success, ?_⟩⟩
    exact (Engine.verdict_eq_ok _ _).mpr (Or.inr ⟨rfl, saturated⟩)

/-- An answer is right under every configuration, and under the default one every
formula in reach of the passes has an answer. -/
theorem satisfiable_decides (formula : Formula) :
    (∀ config environment answer, formula.satisfiable config environment = .ok answer →
        (answer = true ↔ ∃ valuation, formula.evaluate valuation = true)) ∧
      ∀ environment normal, formula.normalForm = .ok normal →
        (∃ answer, formula.satisfiable {} environment = .ok answer) ∧
          (formula.satisfiable {} environment = .ok true ↔
            ∃ valuation, formula.evaluate valuation = true) := by
  have right := fun config environment answer =>
    exists_evaluate_of_satisfiable config environment formula answer
  refine ⟨right, ?_⟩
  intro environment normal success
  have answered := exists_satisfiable_of_normalForm {} ⟨rfl, rfl, rfl⟩ environment formula normal
    success
  refine ⟨answered, ?_⟩
  obtain ⟨answer, given⟩ := answered
  have holds := right {} environment answer given
  constructor
  · exact fun given => (right {} environment true given).mp rfl
  · intro satisfied
    rw [given, holds.mpr satisfied]

/-- No valuation gives an atom the value of its negation. -/
theorem satisfiable_decides_contradiction :
    let formula : Formula := .bicondition (.atom "a") (.not (.atom "a"))
    formula.satisfiable {} {} = .ok false ∧
      (¬ ∃ valuation, formula.evaluate valuation = true) ∧
        (∃ normal, formula.normalForm = .ok normal) ∧
          ∃ answer, formula.satisfiable {} { clock := fun _ => 7 } = .ok answer := by
  intro formula
  have refuted : formula.satisfiable {} {} = .ok false := by rfl
  have normal : formula.normalForm =
      .ok (.and [.or [.not (.atom "a")], .or [.atom "a"]]) := by rfl
  have general := satisfiable_decides formula
  refine ⟨refuted, ?_, ⟨_, normal⟩, (general.2 _ _ normal).1⟩
  intro holds
  have impossible := (general.1 {} {} false refuted).mpr holds
  cases impossible

end Formula
end Clausal
