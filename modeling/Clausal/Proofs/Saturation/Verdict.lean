import Clausal.Proofs.Clause.Model
import Clausal.Proofs.ClauseSet.Equality
import Clausal.Proofs.Saturation.Exhaustion

set_option autoImplicit false

namespace Clausal

namespace Scan.Faithful

variable {names : List String} {set : ClauseSet} {scan : Scan}

theorem not_isComplementaryTo (faithful : scan.Faithful set) (free : scan.conflict = none)
    (first second : Nat) (clause other : Clause) (ordered : first ≤ second)
    (left : set.get? first = some clause) (right : set.get? second = some other) :
    clause.isComplementaryTo other = false := by
  have nothing := faithful.free free (first, second) ordered
  rw [isConflict, left, right] at nothing
  exact nothing

theorem not_isComplementaryTo_of_mem (faithful : scan.Faithful set) (normal : set.Normal names)
    (free : scan.conflict = none) (clause other : Clause) (member : clause ∈ set.toList)
    (member' : other ∈ set.toList) : clause.isComplementaryTo other = false := by
  obtain ⟨first, left⟩ := (set.mem_toList_iff clause).mp member
  obtain ⟨second, right⟩ := (set.mem_toList_iff other).mp member'
  rcases Nat.le_total first second with ordered | ordered
  · exact faithful.not_isComplementaryTo free first second clause other ordered left right
  · rw [Clause.isComplementaryTo_comm clause other (normal.distinct clause member)
      (normal.distinct other member')]
    exact faithful.not_isComplementaryTo free second first other clause ordered right left

/-- A resolvent which is no tautology is in the set or is staged. -/
theorem mem_forms_of_ordered (faithful : scan.Faithful set) (valid : set.Valid)
    (free : scan.conflict = none) (first second : Nat) (clause other : Clause)
    (ordered : first ≤ second) (left : set.get? first = some clause)
    (right : set.get? second = some other) (literal : Literal) (inside : literal ∈ clause.literals)
    (inverse : literal.negate ∈ other.literals)
    (proper : (Clause.resolveOn literal clause other).isTautology = false) :
    (Clause.resolveOn literal clause other).canonical ∈ set.forms ∨
      (Clause.resolveOn literal clause other).canonical ∈ scan.forms := by
  have apart := faithful.not_isComplementaryTo free first second clause other ordered left right
  cases known : set.contains (Clause.resolveOn literal clause other) with
  | true => exact Or.inl ((valid.contains_iff_mem_forms _).mp known)
  | false =>
      have offered := resolvent?_of_clash set (first, second) clause other left right apart literal
        inside inverse proper known
      exact Or.inr (List.mem_map.mpr (faithful.complete free (first, second) ordered _ offered))

theorem mem_forms (faithful : scan.Faithful set) (valid : set.Valid)
    (free : scan.conflict = none) (clause other : Clause) (member : clause ∈ set.toList)
    (member' : other ∈ set.toList) (literal : Literal) (inside : literal ∈ clause.literals)
    (inverse : literal.negate ∈ other.literals)
    (proper : (Clause.resolveOn literal clause other).isTautology = false) :
    (Clause.resolveOn literal clause other).canonical ∈ set.forms ∨
      (Clause.resolveOn literal clause other).canonical ∈ scan.forms := by
  -- Pairs are met in one order only, but seen from the other clause the resolvent is the same.
  obtain ⟨first, left⟩ := (set.mem_toList_iff clause).mp member
  obtain ⟨second, right⟩ := (set.mem_toList_iff other).mp member'
  rcases Nat.le_total first second with ordered | ordered
  · exact faithful.mem_forms_of_ordered valid free first second clause other ordered left right
      literal inside inverse proper
  · have swapped := fun kept => Clause.mem_resolveOn_negate literal kept clause other
    have inside' : literal.negate.negate ∈ clause.literals := by
      rw [Literal.negate_negate]
      exact inside
    have proper' : (Clause.resolveOn literal.negate other clause).isTautology = false := by
      rw [Clause.isTautology_congr _ _ swapped, proper]
    rw [← Clause.canonical_resolveOn_eq _ _ _ _ _ _ swapped]
    exact faithful.mem_forms_of_ordered valid free second first other clause ordered right left
      literal.negate inverse inside' proper'

theorem exists_resolvent_of_idle (faithful : scan.Faithful set) (valid : set.Valid)
    (free : scan.conflict = none) (idle : scan.staged.toList = []) (clause other : Clause)
    (member : clause ∈ set.toList) (member' : other ∈ set.toList) (literal : Literal)
    (inside : literal ∈ clause.literals) (inverse : literal.negate ∈ other.literals)
    (proper : (Clause.resolveOn literal clause other).isTautology = false) :
    ∃ found ∈ set.toList, found.canonical = (Clause.resolveOn literal clause other).canonical := by
  rcases faithful.mem_forms valid free clause other member member' literal inside inverse proper
    with known | staged
  · exact (set.mem_forms_iff _).mp known
  · rw [forms, idle] at staged
    cases staged

/-- A scan of all pairs which finds nothing shows that the set is closed. -/
theorem closed (faithful : scan.Faithful set) (normal : set.Normal names)
    (free : scan.conflict = none) (idle : scan.staged.toList = []) :
    Clause.Closed set.toList := by
  refine ⟨normal.distinct, ?_, ?_⟩
  · intro clause member other member'
    exact faithful.not_isComplementaryTo_of_mem normal free clause other member member'
  · intro clause member other member' literal inside inverse proper
    obtain ⟨found, listed, same⟩ := faithful.exists_resolvent_of_idle normal.toValid free idle
      clause other member member' literal inside inverse proper
    exact ⟨found, listed, fun kept => Clause.mem_iff_of_canonical_eq _ _ kept same⟩

end Scan.Faithful

/-- Every clause of the set holds, except that the empty clause need not. -/
def ClauseSet.HoldsInhabited (valuation : Valuation) (set : ClauseSet) : Prop :=
  ∀ clause ∈ set.toList, clause.literals ≠ [] → clause.evaluate valuation = true

theorem Clause.ofList_literals_eq_nil_iff (literals : List Literal) :
    (ofList literals).literals = [] ↔ literals = [] := by
  simp only [List.eq_nil_iff_forall_not_mem, mem_ofList]

namespace ClauseSet

/-- The set of those of the given clauses which are not empty. -/
def ofInhabited (lists : List (List Literal)) : ClauseSet :=
  ofList ((lists.filter (· ≠ [])).map Clause.ofList)

theorem holdsInhabited_ofList (valuation : Valuation) (clauses : List Clause) :
    (ofList clauses).HoldsInhabited valuation ↔
      ∀ clause ∈ clauses, clause.literals ≠ [] → clause.evaluate valuation = true := by
  apply forall_mem_ofList fun clause => clause.literals ≠ [] → clause.evaluate valuation = true
  · intro clause tautology _
    exact Clause.evaluate_of_isTautology valuation clause tautology
  · intro clause other order holds inhabited
    rw [← Clause.evaluate_of_canonical_eq valuation clause other order]
    apply holds
    intro empty
    have rearranged := (Clause.canonical_eq_iff clause other).mp order
    rw [empty] at rearranged
    exact inhabited rearranged.symm.eq_nil

theorem holdsInhabited_ofList_iff (valuation : Valuation) (lists : List (List Literal)) :
    (ofList (lists.map Clause.ofList)).HoldsInhabited valuation ↔
      (ofInhabited lists).evaluate valuation = true := by
  rw [holdsInhabited_ofList, ofInhabited, evaluate_ofList, List.all_eq_true]
  simp only [List.forall_mem_map, List.mem_filter, decide_eq_true_eq, and_imp, ne_eq,
    Clause.ofList_literals_eq_nil_iff]

theorem evaluate_of_empty_mem (valuation : Valuation) (lists : List (List Literal))
    (empty : [] ∈ lists) : (ofList (lists.map Clause.ofList)).evaluate valuation = false := by
  rw [evaluate_ofList, List.all_eq_false]
  exact ⟨Clause.ofList [], List.mem_map_of_mem empty, Bool.false_ne_true⟩

theorem ofInhabited_of_empty_not_mem (lists : List (List Literal)) (inhabited : [] ∉ lists) :
    ofInhabited lists = ofList (lists.map Clause.ofList) := by
  rw [ofInhabited, List.filter_eq_self.mpr]
  intro literals member
  rw [decide_eq_true_eq]
  exact fun empty => inhabited (empty ▸ member)

end ClauseSet

namespace Engine

/-- A run which ends for want of resolvents has made a scan of its set which found nothing. -/
theorem exists_idle_scan (config : Config) (set : ClauseSet) (made : List Call)
    (ended : ((start config set).calls made).state = .saturated) :
    ∃ scan : Scan, scan.Faithful ((start config set).calls made).set ∧ scan.conflict = none ∧
      scan.staged.toList = [] := by
  revert ended
  apply calls_induction fun engine => engine.state = .saturated → ∃ scan : Scan,
    scan.Faithful engine.set ∧ scan.conflict = none ∧ scan.staged.toList = []
  · intro environment engine before
    have round := round_step environment engine
    generalize engine.step environment = later at round
    intro ended
    cases round with
    | finished => exact before ended
    | conflict => cases ended
    | saturated scan active faithful free idle => exact ⟨scan, faithful, free, idle⟩
    | grown scan active =>
        obtain ⟨_, _, _, same⟩ := foldl_addStaged_eq scan.staged.toList (engine.scanned scan)
        rw [same, scanned, active] at ended
        cases ended
  · exact fun engine budget before => before
  · intro impossible
    cases impossible

theorem closed_calls {names : List String} {config : Config} {set : ClauseSet}
    (normal : set.Normal names) (made : List Call)
    (ended : ((start config set).calls made).state = .saturated) :
    Clause.Closed ((start config set).calls made).set.toList := by
  obtain ⟨scan, faithful, free, idle⟩ := exists_idle_scan config set made ended
  exact faithful.closed (normal_calls normal made) free idle

/-- A resolvent has no empty parent, so what holds of the clauses a run began with,
those which are empty apart, holds of all it has. -/
theorem Recorded.evaluate_of_inhabited {initial set : ClauseSet} {record : Derivation}
    (recorded : Recorded initial set record) (valuation : Valuation)
    (holds : initial.HoldsInhabited valuation) (key : Nat) (clause : Clause)
    (found : set.get? key = some clause) (inhabited : clause.literals ≠ []) :
    clause.evaluate valuation = true := by
  induction key using Nat.strongRecOn generalizing clause with
  | ind key ih =>
      obtain ⟨entry, _, noted⟩ := recorded.noted key (set.get?_lt key clause found)
      cases noted with
      | input given =>
          rw [← recorded.get?_initial key given] at found
          exact holds clause ((initial.mem_toList_iff clause).mpr ⟨key, found⟩) inhabited
      | resolvent first second round left right added ordered before inLeft inRight able resolved =>
          obtain ⟨literal, own, inverse⟩ := Clause.exists_clash_of_canResolveWith left right able
          rw [found, Option.some.injEq] at resolved
          rw [resolved]
          apply Clause.evaluate_resolveWith
          · exact ih first (by omega) left inLeft (List.ne_nil_of_mem own)
          · exact ih second before right inRight (List.ne_nil_of_mem inverse)

section

variable {names : List String} {config : Config} {set : ClauseSet}

theorem not_holdsInhabited_of_conflict (made : List Call)
    (ended : ((start config set).calls made).report = .conflict) (valuation : Valuation) :
    ¬ set.HoldsInhabited valuation := by
  -- Both clauses of a conflict have a literal, so one of them fails.
  intro holds
  have derived := derived_calls config set made
  obtain ⟨pair, state⟩ := (report_eq_conflict_iff _).mp ended
  obtain ⟨clause, other, left, right, complementary⟩ :=
    (Scan.isConflict_iff _ pair).mp (derived.complementary pair state).2
  obtain ⟨literal, only, inverse, _⟩ :=
    (Clause.isComplementaryTo_iff clause other).mp complementary
  have own : literal ∈ clause.literals := by
    rw [only]
    exact List.mem_singleton_self literal
  have each := derived.recorded.evaluate_of_inhabited valuation holds
  have first := each pair.1 clause left (List.ne_nil_of_mem own)
  have second := each pair.2 other right (List.ne_nil_of_mem inverse)
  rw [Clause.not_evaluate_of_isComplementaryTo valuation clause other complementary first] at second
  cases second

theorem exists_holdsInhabited_of_saturated (normal : set.Normal names) (made : List Call)
    (ended : ((start config set).calls made).report = .saturated) :
    ∃ valuation, set.HoldsInhabited valuation := by
  have derived := derived_calls config set made
  have closed := closed_calls normal made ((report_eq_saturated_iff _).mp ended)
  obtain ⟨valuation, holds⟩ := Clause.exists_valuation_of_closed _ closed
  refine ⟨valuation, ?_⟩
  intro clause member
  exact holds clause (derived.recorded.kept.subset member)

end

/-- Whatever its clauses repeat, a run without limits comes to one end or the other. -/
theorem report_refute_eq {config : Config} {set : ClauseSet} (valid : set.Valid)
    (unlimited : config.Unlimited) (environment : Environment) :
    ((start config set).refute environment).report = .conflict ∨
      ((start config set).refute environment).report = .saturated := by
  have told : ((start config set).refute environment).config = config :=
    config_calls (start config set) [.refute environment]
  have free := exceeded_of_unlimited environment ((start config set).refute environment)
    (told.symm ▸ unlimited)
  cases report : ((start config set).refute environment).report with
  | conflict => exact Or.inl rfl
  | saturated => exact Or.inr rfl
  | unknown =>
      rcases stopped_refute_calls config valid [] environment with ended | ⟨budget, limit, _⟩
      · exact absurd ((report_eq_unknown_iff _).mp report) ended
      · exact absurd (free.symm.trans limit) nofun

theorem report_refute_iff (config : Config) (unlimited : config.Unlimited)
    (environment : Environment) (clauses : List Clause)
    (distinct : ∀ clause ∈ clauses, clause.literals.Nodup) :
    let initial := ClauseSet.ofList clauses
    let report := ((start config initial).refute environment).report
    (report = .conflict ↔ ∀ valuation, ¬ initial.HoldsInhabited valuation) ∧
      (report = .saturated ↔ ∃ valuation, initial.HoldsInhabited valuation) := by
  intro initial report
  have conflict : report = .conflict → ∀ valuation, ¬ initial.HoldsInhabited valuation :=
    not_holdsInhabited_of_conflict [.refute environment]
  have saturated : report = .saturated → ∃ valuation, initial.HoldsInhabited valuation :=
    exists_holdsInhabited_of_saturated (ClauseSet.normal_ofList clauses distinct)
      [.refute environment]
  have ended : report = .conflict ∨ report = .saturated :=
    report_refute_eq (ClauseSet.valid_ofList clauses) unlimited environment
  constructor
  · refine ⟨conflict, ?_⟩
    intro unsatisfied
    rcases ended with same | same
    · exact same
    · obtain ⟨valuation, holds⟩ := saturated same
      exact absurd holds (unsatisfied valuation)
  · refine ⟨saturated, ?_⟩
    intro ⟨valuation, holds⟩
    rcases ended with same | same
    · exact absurd holds (conflict same valuation)
    · exact same

/-- The report is on the clauses which are not empty. So it is on all of them
exactly where there is no empty clause or the others already contradict each other. -/
theorem report_refute_decides_inhabited (lists : List (List Literal))
    (environment : Environment) :
    let set := ClauseSet.ofList (lists.map Clause.ofList)
    let report := ((start {} set).refute environment).report
    (report = .conflict ↔
        ∀ valuation, (ClauseSet.ofInhabited lists).evaluate valuation = false) ∧
      (report = .saturated ↔
        ∃ valuation, (ClauseSet.ofInhabited lists).evaluate valuation = true) ∧
      (((report = .conflict ↔ ∀ valuation, set.evaluate valuation = false) ∧
          (report = .saturated ↔ ∃ valuation, set.evaluate valuation = true)) ↔
        ([] ∈ lists → ∀ valuation, (ClauseSet.ofInhabited lists).evaluate valuation = false)) := by
  intro set report
  obtain ⟨conflict, saturated⟩ :=
    report_refute_iff {} ⟨rfl, rfl, rfl⟩ environment (lists.map Clause.ofList)
      (Clause.nodup_of_mem_map_ofList lists)
  simp only [ClauseSet.holdsInhabited_ofList_iff, Bool.not_eq_true] at conflict saturated
  refine ⟨conflict, saturated, ?_⟩
  by_cases empty : [] ∈ lists
  · have fails := fun valuation => ClauseSet.evaluate_of_empty_mem valuation lists empty
    constructor
    · intro ⟨documented, _⟩ _
      exact conflict.mp (documented.mpr fails)
    · intro others
      have refuted : report = .conflict := conflict.mpr (others empty)
      refine ⟨⟨fun _ => fails, fun _ => refuted⟩, ?_⟩
      constructor
      · intro impossible
        rw [refuted] at impossible
        cases impossible
      · intro ⟨valuation, holds⟩
        rw [fails valuation] at holds
        cases holds
  · rw [ClauseSet.ofInhabited_of_empty_not_mem lists empty] at conflict saturated
    exact ⟨fun _ impossible => absurd impossible empty, fun _ => ⟨conflict, saturated⟩⟩

/-- The set of the empty clause alone is reported as saturated. -/
theorem not_report_refute_decides :
    ¬ ∀ (lists : List (List Literal)) (environment : Environment),
      let set := ClauseSet.ofList (lists.map Clause.ofList)
      let report := ((start {} set).refute environment).report
      (report = .conflict ↔ ∀ valuation, set.evaluate valuation = false) ∧
        (report = .saturated ↔ ∃ valuation, set.evaluate valuation = true) := by
  intro decides
  have saturated : ((start {} (.ofList ([[]].map Clause.ofList))).refute {}).report =
      .saturated := by
    decide
  obtain ⟨valuation, holds⟩ := (decides [[]] {}).2.mp saturated
  rw [ClauseSet.evaluate_of_empty_mem valuation [[]] (List.mem_singleton_self [])] at holds
  cases holds

end Engine
end Clausal
