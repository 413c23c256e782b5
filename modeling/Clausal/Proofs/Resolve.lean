import Clausal.Proofs.NormalForm.Canonical
import Clausal.Proofs.Satisfiability
import Clausal.Proofs.Saturation.Invariant

set_option autoImplicit false

namespace Clausal

theorem Clause.toFormula_injective : Function.Injective Clause.toFormula :=
  fun _ _ same => congrArg Clause.mk (disjunctionOf_injective same)

namespace ClauseSet

theorem toList_eq_of_toFormula (set other : ClauseSet) (same : set.toFormula = other.toFormula) :
    set.toList = other.toList :=
  List.map_injective_iff.mpr Clause.toFormula_injective (Formula.and.inj same)

theorem mem_atoms_iff (set : ClauseSet) (name : String) :
    name ∈ set.atoms ↔ ∃ clause ∈ set.toList, ∃ literal ∈ clause.literals, literal.atom = name := by
  rw [atoms, Ordered.mem_distinct]
  simp only [List.mem_flatMap, Clause.atoms, List.mem_map]
  rfl

theorem mem_atoms_toFormula (set : ClauseSet) (name : String) :
    name ∈ set.toFormula.atoms ↔ name ∈ set.atoms := by
  rw [toFormula, Formula.mem_atoms_and, mem_atoms_iff]
  simp only [List.mem_map, exists_exists_and_eq_and]
  refine exists_congr fun clause => and_congr_right fun _ => ?_
  rw [Clause.toFormula, ← disjunctionOf, mem_atoms_disjunctionOf]
  simp only [eq_comm]

theorem normal_of_ofFormula (node : Formula) (set : ClauseSet) (read : ofFormula node = .ok set) :
    set.Normal set.atoms := by
  obtain ⟨lists, _, _, rfl⟩ := (ofFormula_eq_ok node set).mp read
  exact normal_ofList _ (Clause.nodup_of_mem_map_ofList lists)

theorem Normal.legible {initial set : ClauseSet} (normal : set.Normal initial.atoms)
    (legible : ∀ clause ∈ initial.toList, Legible clause.literals)
    (inhabited : ∀ clause ∈ set.toList, clause.literals ≠ []) :
    ∀ clause ∈ set.toList, Legible clause.literals := by
  intro clause member
  refine ⟨inhabited clause member, ?_⟩
  intro literal inside
  obtain ⟨source, given, named, own, same⟩ :=
    (initial.mem_atoms_iff literal.atom).mp (normal.within clause member literal inside)
  rw [← same]
  exact (legible source given).2 named own

end ClauseSet

theorem Scan.isConflict_congr {set later : ClauseSet} (same : later.toList = set.toList)
    (pair : Pair) : isConflict later pair = isConflict set pair := by
  simp only [isConflict, ClauseSet.get?_eq, same]

namespace Engine

theorem Recorded.inhabited {initial set : ClauseSet} {record : Derivation}
    (recorded : Recorded initial set record)
    (distinct : ∀ clause ∈ set.toList, clause.literals.Nodup)
    (given : ∀ clause ∈ initial.toList, clause.literals ≠ []) :
    ∀ clause ∈ set.toList, clause.literals ≠ [] := by
  intro clause member
  obtain ⟨key, found⟩ := (set.mem_toList_iff clause).mp member
  obtain ⟨entry, _, noted⟩ := recorded.noted key (set.get?_lt key clause found)
  cases noted with
  | input inside =>
      rw [← recorded.get?_initial key inside] at found
      exact given clause ((initial.mem_toList_iff clause).mpr ⟨key, found⟩)
  | resolvent first second round left right added ordered before inLeft inRight able resolved =>
      rw [found, Option.some.injEq] at resolved
      rw [resolved]
      exact Clause.resolveWith_ne_nil left right
        (distinct left ((set.mem_toList_iff left).mpr ⟨first, inLeft⟩)) able

theorem staged_eq_nil_of_closed {set : ClauseSet} {scan : Scan} (faithful : scan.Faithful set)
    (valid : set.Valid) (closed : Clause.Closed set.toList) : scan.staged.toList = [] := by
  rw [List.eq_nil_iff_forall_not_mem]
  intro entry member
  obtain ⟨_, clause, other, left, right, able, resolved, proper, fresh⟩ :=
    (Scan.resolvent?_eq_some_iff set _ entry).mp (faithful.staged entry member).2
  have inside := (set.mem_toList_iff clause).mpr ⟨_, left⟩
  have inside' := (set.mem_toList_iff other).mpr ⟨_, right⟩
  obtain ⟨literal, own, inverse⟩ := Clause.exists_clash_of_canResolveWith clause other able
  rw [← resolved] at proper fresh
  obtain ⟨key, found, known, same⟩ := ClauseSet.exists_sameAs_resolveWith closed clause other inside
    inside' literal own inverse proper
  have listed := (set.mem_toList_iff found).mpr ⟨key, known⟩
  have form := (Clause.sameAs_iff_canonical_eq _ _ (closed.distinct found listed)).mp same
  rw [(valid.contains_iff _).mpr ⟨found, listed, form⟩] at fresh
  cases fresh

section

variable (config : Config) (environment : Environment) {set : ClauseSet}

theorem step_start_of_conflict (pair : Pair) (ordered : pair.1 ≤ pair.2)
    (conflict : Scan.isConflict set pair = true) :
    ((start config set).step environment).report = .conflict ∧
      ((start config set).step environment).set = set := by
  have round := round_step environment (start config set)
  generalize (start config set).step environment = later at round
  have clash : ∀ scan : Scan, scan.Faithful set → scan.conflict ≠ none := by
    intro scan faithful free
    rw [faithful.free free pair ordered] at conflict
    cases conflict
  -- Which conflict the scan reports is open, not that it reports one.
  cases round with
  | finished ended => exact absurd rfl ended
  | conflict => exact ⟨rfl, rfl⟩
  | saturated scan _ faithful free => exact absurd free (clash scan faithful)
  | grown scan _ faithful free => exact absurd free (clash scan faithful)

theorem step_start_of_closed (valid : set.Valid) (closed : Clause.Closed set.toList) :
    ((start config set).step environment).report = .saturated ∧
      ((start config set).step environment).set = set := by
  have round := round_step environment (start config set)
  generalize (start config set).step environment = later at round
  cases round with
  | finished ended => exact absurd rfl ended
  | conflict scan pair _ faithful found =>
      obtain ⟨clause, other, left, right, complementary⟩ :=
        (Scan.isConflict_iff set pair).mp (faithful.conflict pair found).2
      rw [closed.free clause ((set.mem_toList_iff clause).mpr ⟨_, left⟩) other
        ((set.mem_toList_iff other).mpr ⟨_, right⟩)] at complementary
      cases complementary
  | saturated => exact ⟨rfl, rfl⟩
  | grown scan _ faithful _ busy =>
      exact absurd (staged_eq_nil_of_closed faithful valid closed) busy

/-- A run without limits which its first round ends is that round. -/
theorem refute_start_eq_step (unlimited : config.Unlimited)
    (ended : ((start config set).step environment).state ≠ .active) :
    (start config set).refute environment = (start config set).step environment := by
  have limit := exceeded_of_unlimited environment (start config set) unlimited
  rw [refute, roundBound, run, limit]
  exact run_of_ne_active environment _ _ ended

end

/-- A run which begins with the clauses another one has come to ends with them, and in
the same way. -/
theorem refute_again {names : List String} (config again : Config) (unlimited : again.Unlimited)
    (environment other : Environment) {set later : ClauseSet} (normal : set.Normal names)
    (valid : later.Valid) (refuted : Bool)
    (ended : ((start config set).refute environment).verdict = .ok refuted)
    (same : later.toList = ((start config set).refute environment).set.toList) :
    ((start again later).refute other).verdict = .ok refuted ∧
      ((start again later).refute other).set = later := by
  have settled : ∀ report : Report, report ≠ .unknown →
      ((start again later).step other).report = report →
        (start again later).refute other = (start again later).step other := by
    intro report known first
    apply refute_start_eq_step again other unlimited
    intro active
    rw [← report_eq_unknown_iff, first] at active
    exact known active
  rcases (verdict_eq_ok _ _).mp ended with ⟨rfl, conflict⟩ | ⟨rfl, saturated⟩
  · have derived := derived_calls config set [.refute environment]
    obtain ⟨pair, state⟩ := (report_eq_conflict_iff _).mp conflict
    obtain ⟨ordered, complementary⟩ := derived.complementary pair state
    have still : Scan.isConflict later pair = true := by
      rw [Scan.isConflict_congr same]
      exact complementary
    obtain ⟨report, unchanged⟩ := step_start_of_conflict again other pair ordered still
    rw [settled .conflict (by decide) report]
    exact ⟨(verdict_eq_ok _ _).mpr (Or.inl ⟨rfl, report⟩), unchanged⟩
  · have closed := closed_calls normal [.refute environment]
      ((report_eq_saturated_iff _).mp saturated)
    have still : Clause.Closed later.toList := by
      rw [same]
      exact closed
    obtain ⟨report, unchanged⟩ := step_start_of_closed again other valid still
    rw [settled .saturated (by decide) report]
    exact ⟨(verdict_eq_ok _ _).mpr (Or.inr ⟨rfl, report⟩), unchanged⟩

end Engine

namespace Formula

theorem resolve_eq_ok (config : Config) (environment : Environment) (formula closed : Formula)
    (refuted : Bool) :
    formula.resolve config environment = .ok (refuted, closed) ↔
      ∃ set, ClauseSet.ofFormula formula = .ok set ∧
        ((Engine.start config set).refute environment).verdict = .ok refuted ∧
          ((Engine.start config set).refute environment).set.toFormula = closed := by
  rw [resolve, bind_eq_ok]
  simp only [lift_eq_ok]
  refine exists_congr fun set => and_congr_right fun _ => ?_
  cases ((Engine.start config set).refute environment).verdict with
  | error budget =>
      constructor
      · intro impossible
        cases impossible
      · intro ⟨impossible, _⟩
        cases impossible
  | ok answer =>
      change Except.ok (answer, _) = Except.ok (refuted, closed) ↔ _
      simp

/-- Whatever the limits of the run, if it comes to an end the formula it gives says what
it was given, is canonical, and is what any run without limits makes of it. -/
theorem resolve_settled (config : Config) (environment : Environment) (formula closed : Formula)
    (refuted : Bool) (success : formula.resolve config environment = .ok (refuted, closed)) :
    closed.Canonical ∧ (∀ valuation, closed.evaluate valuation = formula.evaluate valuation) ∧
      (∀ name ∈ closed.atoms, name ∈ formula.atoms) ∧
        ∀ again : Config, again.Unlimited → ∀ other,
          closed.resolve again other = .ok (refuted, closed) := by
  obtain ⟨set, read, ended, rfl⟩ :=
    (resolve_eq_ok config environment formula closed refuted).mp success
  have restates := ClauseSet.restates_of_ofFormula formula set read
  have begun := ClauseSet.normal_of_ofFormula formula set read
  have given := ClauseSet.legible_of_ofFormula formula set read
  have normal : ((Engine.start config set).refute environment).set.Normal set.atoms :=
    Engine.normal_calls begun [.refute environment]
  have recorded := (Engine.derived_calls config set [.refute environment]).recorded
  have inhabited := recorded.inhabited normal.distinct fun clause member => (given clause member).1
  have canonical := normal.canonical_toFormula (normal.legible given inhabited) normal.distinct
  refine ⟨canonical, ?value, ?atoms, ?again⟩
  case value =>
    intro valuation
    rw [← restates.value, ClauseSet.evaluate_toFormula, ClauseSet.evaluate_toFormula]
    exact recorded.evaluate_eq valuation
  case atoms =>
    intro name member
    rw [ClauseSet.mem_atoms_toFormula, ClauseSet.mem_atoms_iff] at member
    obtain ⟨clause, listed, literal, inside, rfl⟩ := member
    apply restates.atoms
    rw [ClauseSet.mem_atoms_toFormula]
    exact normal.within clause listed literal inside
  case again =>
    intro again unlimited other
    obtain ⟨later, read, written⟩ := canonical.ofFormula
    have valid := (ClauseSet.normal_of_ofFormula _ later read).toValid
    obtain ⟨verdict, unchanged⟩ := Engine.refute_again config again unlimited environment other
      begun valid refuted ended (ClauseSet.toList_eq_of_toFormula _ _ written)
    refine (resolve_eq_ok again other _ _ refuted).mpr ⟨later, read, verdict, ?_⟩
    rw [unchanged, written]

/-- The first run comes to a conflict in its second round, the second in its first. -/
theorem resolve_settled_chain :
    let formula : Formula := .and [.or [.atom "p"], .or [.not (.atom "p"), .atom "q"],
      .or [.not (.atom "q"), .not (.atom "p"), .not (.atom "q")]]
    let closed : Formula := .and [.or [.atom "p"], .or [.not (.atom "p"), .atom "q"],
      .or [.not (.atom "q"), .not (.atom "p")], .or [.atom "q"], .or [.not (.atom "q")],
      .or [.not (.atom "p")]]
    formula.resolve {} {} = .ok (true, closed) ∧ closed.Canonical ∧
      closed.resolve {} {} = .ok (true, closed) := by
  intro formula closed
  have success : formula.resolve {} {} = .ok (true, closed) := by rfl
  obtain ⟨canonical, _, _, again⟩ := resolve_settled {} {} formula closed true success
  exact ⟨success, canonical, again {} ⟨rfl, rfl, rfl⟩ {}⟩

end Formula
end Clausal
