import Clausal.Proofs.Saturation.Verdict

set_option autoImplicit false

/- Clauses given by bare lists, which may have a literal twice. Such a clause holds where it does
without the repeats, and every resolvent is without them. But one literal, repeated, is no unit
clause: instead of a conflict with its inverse it has the empty clause for a resolvent, and of the
empty clause a run takes no notice. -/
namespace Clausal

namespace Clause

def merged (clause : Clause) : Clause :=
  ofList clause.literals

@[simp] theorem mem_merged (clause : Clause) (literal : Literal) :
    literal ∈ clause.merged.literals ↔ literal ∈ clause.literals :=
  mem_ofList literal clause.literals

@[simp] theorem evaluate_merged (valuation : Valuation) (clause : Clause) :
    clause.merged.evaluate valuation = clause.evaluate valuation :=
  evaluate_ofList valuation clause.literals

theorem merged_ne_nil_iff (clause : Clause) :
    clause.merged.literals ≠ [] ↔ clause.literals ≠ [] :=
  not_congr (ofList_literals_eq_nil_iff clause.literals)

/-- Clauses which would be complementary without repeats leave nothing. -/
theorem exists_resolveOn_empty (clause other : Clause)
    (complementary : clause.merged.isComplementaryTo other.merged = true) :
    ∃ literal ∈ clause.literals, literal.negate ∈ other.literals ∧
      (resolveOn literal clause other).literals = [] := by
  obtain ⟨literal, only, opposite⟩ :=
    (isComplementaryTo_iff_of_nodup _ other.merged (nodup_ofList _)).mp complementary
  have own : ∀ member, member ∈ clause.literals ↔ member = literal := by
    intro member
    rw [← mem_merged, only, List.mem_singleton]
  have inverse : ∀ member, member ∈ other.literals ↔ member = literal.negate := by
    intro member
    rw [← mem_merged, opposite, List.mem_singleton]
  refine ⟨literal, (own literal).mpr rfl, (inverse literal.negate).mpr rfl, ?_⟩
  rw [resolveOn_eq_nil_iff]
  exact ⟨fun member => (own member).mp, fun member => (inverse member).mp⟩

theorem isUnit_merged_of_resolveWith_empty (clause other : Clause)
    (able : clause.canResolveWith other = true)
    (empty : (clause.resolveWith other).literals = []) : clause.merged.isUnit = true := by
  obtain ⟨pivot, own, _, resolved⟩ :=
    exists_resolveWith_eq clause other (exists_clash_of_canResolveWith clause other able)
  rw [resolved] at empty
  obtain ⟨every, _⟩ := (resolveOn_eq_nil_iff pivot clause other).mp empty
  have only : clause.merged.literals = [pivot] := by
    apply eq_singleton_of_forall_eq (nodup_ofList _)
    · exact (mem_merged clause pivot).mpr own
    · exact fun member inside => every member ((mem_merged clause member).mp inside)
  rw [isUnit, size, only]
  rfl

theorem nodup_of_isUnit (clause : Clause) (unit : clause.isUnit = true) :
    clause.literals.Nodup := by
  rw [isUnit, size, beq_iff_eq, List.length_eq_one_iff] at unit
  obtain ⟨literal, only⟩ := unit
  rw [only]
  exact List.nodup_singleton literal

end Clause

/-- A scan which finds nothing shows that the clauses are closed once their repeats are gone, if
the empty clause is not among them. -/
theorem Scan.Faithful.closed_merged {set : ClauseSet} {scan : Scan} (faithful : scan.Faithful set)
    (valid : set.Valid) (free : scan.conflict = none) (idle : scan.staged.toList = [])
    (inhabited : ⟨[]⟩ ∉ set.toList) : Clause.Closed (set.toList.map Clause.merged) := by
  have resolvent := faithful.exists_resolvent_of_idle valid free idle
  constructor
  case distinct =>
    rw [List.forall_mem_map]
    exact fun clause _ => Clause.nodup_ofList clause.literals
  case free =>
    simp only [List.forall_mem_map, Bool.eq_false_iff]
    intro clause member other member' complementary
    obtain ⟨literal, own, inverse, empty⟩ :=
      Clause.exists_resolveOn_empty clause other complementary
    have proper : (Clause.resolveOn literal clause other).isTautology = false := by
      rw [Clause.isTautology, empty]
      rfl
    obtain ⟨found, listed, same⟩ := resolvent clause other member member' literal own inverse proper
    have rearranged := (Clause.canonical_eq_iff _ _).mp same
    rw [empty] at rearranged
    have nothing : found = ⟨[]⟩ := congrArg Clause.mk rearranged.eq_nil
    exact inhabited (nothing ▸ listed)
  case full =>
    simp only [List.forall_mem_map, Clause.mem_merged]
    intro clause member other member' literal own inverse proper
    have kept : ∀ left, left ∈ (Clause.resolveOn literal clause.merged other.merged).literals ↔
        left ∈ (Clause.resolveOn literal clause other).literals := by
      intro left
      simp only [Clause.mem_resolveOn, Clause.mem_merged]
    rw [Clause.isTautology_congr _ _ kept] at proper
    obtain ⟨found, listed, same⟩ := resolvent clause other member member' literal own inverse proper
    refine ⟨found.merged, List.mem_map_of_mem listed, ?_⟩
    intro left
    rw [Clause.mem_merged, kept, Clause.mem_iff_of_canonical_eq found _ left same]

theorem ClauseSet.holdsInhabited_bare_iff (valuation : Valuation) (lists : List (List Literal)) :
    (ofList (lists.map Clause.mk)).HoldsInhabited valuation ↔
      (ofList (lists.map Clause.ofList)).HoldsInhabited valuation := by
  simp only [holdsInhabited_ofList, List.forall_mem_map, ne_eq, Clause.ofList_literals_eq_nil_iff,
    Clause.evaluate_ofList]
  exact Iff.rfl

namespace Engine

section

variable {initial set : ClauseSet} {record : Derivation}

theorem Recorded.exists_parents_of_empty (recorded : Recorded initial set record)
    (inhabited : ⟨[]⟩ ∉ initial.toList) (empty : ⟨[]⟩ ∈ set.toList) :
    ∃ first second clause other, set.get? first = some clause ∧ set.get? second = some other ∧
      clause.canResolveWith other = true ∧ clause.resolveWith other = ⟨[]⟩ := by
  -- The empty clause is not there from the start, so it is a resolvent.
  obtain ⟨key, found⟩ := (set.mem_toList_iff _).mp empty
  obtain ⟨entry, _, noted⟩ := recorded.noted key (set.get?_lt key _ found)
  cases noted with
  | input given =>
      rw [← recorded.get?_initial key given] at found
      exact absurd ((initial.mem_toList_iff _).mpr ⟨key, found⟩) inhabited
  | resolvent first second round clause other added ordered before left right able resolved =>
      rw [found, Option.some.injEq] at resolved
      exact ⟨first, second, clause, other, left, right, able, resolved.symm⟩

theorem Recorded.not_holdsInhabited_of_empty (recorded : Recorded initial set record)
    (inhabited : ⟨[]⟩ ∉ initial.toList) (empty : ⟨[]⟩ ∈ set.toList) (valuation : Valuation) :
    ¬ initial.HoldsInhabited valuation := by
  -- The parents of the empty clause are not empty themselves, so they do not hold together.
  intro holds
  obtain ⟨first, second, clause, other, left, right, able, resolved⟩ :=
    recorded.exists_parents_of_empty inhabited empty
  obtain ⟨literal, own, inverse⟩ := Clause.exists_clash_of_canResolveWith clause other able
  have each := recorded.evaluate_of_inhabited valuation holds
  have impossible := Clause.evaluate_resolveWith valuation clause other
    (each first clause left (List.ne_nil_of_mem own))
    (each second other right (List.ne_nil_of_mem inverse))
  rw [resolved] at impossible
  cases impossible

/-- Only a clause which is a unit but for its repeats has an empty resolvent, and no resolvent is
such a clause. -/
theorem Recorded.empty_not_mem (recorded : Recorded initial set record)
    (inhabited : ⟨[]⟩ ∉ initial.toList)
    (units : ∀ clause ∈ initial.toList, clause.isUnit = clause.merged.isUnit) :
    ⟨[]⟩ ∉ set.toList := by
  intro empty
  obtain ⟨first, second, clause, other, left, right, able, resolved⟩ :=
    recorded.exists_parents_of_empty inhabited empty
  have nothing : (clause.resolveWith other).literals = [] := congrArg Clause.literals resolved
  have distinct : clause.literals.Nodup := by
    rcases Nat.lt_or_ge first initial.size with given | added
    · rw [← recorded.get?_initial first given] at left
      apply Clause.nodup_of_isUnit
      rw [units clause ((initial.mem_toList_iff clause).mpr ⟨first, left⟩)]
      exact Clause.isUnit_merged_of_resolveWith_empty clause other able nothing
    · exact recorded.nodup_of_added first clause added left
  exact Clause.resolveWith_ne_nil clause other distinct able nothing

end

section

variable {config : Config} {set : ClauseSet} (valid : set.Valid)

include valid

theorem exists_holdsInhabited_of_inhabited (made : List Call)
    (ended : ((start config set).calls made).report = .saturated)
    (inhabited : ⟨[]⟩ ∉ ((start config set).calls made).set.toList) :
    ∃ valuation, set.HoldsInhabited valuation := by
  obtain ⟨scan, faithful, free, idle⟩ :=
    exists_idle_scan config set made ((report_eq_saturated_iff _).mp ended)
  have closed := faithful.closed_merged (valid_calls valid made) free idle inhabited
  obtain ⟨valuation, holds⟩ := Clause.exists_valuation_of_closed _ closed
  refine ⟨valuation, ?_⟩
  intro clause member some
  have kept := (kept_calls (start config set) made).subset member
  rw [← Clause.evaluate_merged]
  exact holds clause.merged (List.mem_map_of_mem kept) ((Clause.merged_ne_nil_iff clause).mpr some)

/-- A run which does not begin with the empty clause ends in a conflict, or with the empty clause
among those which it has, or with clauses which hold together. -/
theorem report_refute_cases (unlimited : config.Unlimited) (inhabited : ⟨[]⟩ ∉ set.toList)
    (environment : Environment) :
    let done := (start config set).refute environment
    (done.report = .conflict ∧ ∀ valuation, ¬ set.HoldsInhabited valuation) ∨
      done.report = .saturated ∧
        ((⟨[]⟩ ∈ done.set.toList ∧ ∀ valuation, ¬ set.HoldsInhabited valuation) ∨
          (⟨[]⟩ ∉ done.set.toList ∧ ∃ valuation, set.HoldsInhabited valuation)) := by
  intro done
  have recorded : Recorded set done.set done.derivation :=
    (derived_calls config set [.refute environment]).recorded
  rcases report_refute_eq valid unlimited environment with ended | ended
  · exact Or.inl ⟨ended, not_holdsInhabited_of_conflict [.refute environment] ended⟩
  · refine Or.inr ⟨ended, ?_⟩
    by_cases empty : ⟨[]⟩ ∈ done.set.toList
    · exact Or.inl ⟨empty, recorded.not_holdsInhabited_of_empty inhabited empty⟩
    · exact Or.inr ⟨empty,
        exists_holdsInhabited_of_inhabited valid [.refute environment] ended empty⟩

end

/-- A conflict of the bare clauses is one of the clauses without repeats. The reports agree but
where the bare clauses come to an end with the empty clause among them, and this takes a clause
which becomes a unit when its repeats go. -/
theorem report_refute_bare (lists : List (List Literal)) (inhabited : [] ∉ lists)
    (environment other : Environment) :
    let bare := (start {} (.ofList (lists.map Clause.mk))).refute environment
    let merged := (start {} (.ofList (lists.map Clause.ofList))).refute other
    (bare.report = .conflict → merged.report = .conflict) ∧
      (bare.report = merged.report ↔ (bare.report = .saturated → ⟨[]⟩ ∉ bare.set.toList)) ∧
      ((∀ literals ∈ lists, (Clause.mk literals).isUnit = (Clause.ofList literals).isUnit) →
        bare.report = merged.report) := by
  intro bare merged
  have valid := ClauseSet.valid_ofList (lists.map Clause.mk)
  have offered : ∀ clause ∈ (ClauseSet.ofList (lists.map Clause.mk)).toList,
      clause.literals ∈ lists := by
    intro clause member
    obtain ⟨literals, listed, rfl⟩ := List.mem_map.mp (ClauseSet.mem_of_mem_ofList _ _ member)
    exact listed
  have begun : ⟨[]⟩ ∉ (ClauseSet.ofList (lists.map Clause.mk)).toList :=
    fun member => inhabited (offered _ member)
  have unlimited : Config.Unlimited {} := ⟨rfl, rfl, rfl⟩
  obtain ⟨conflict, saturated⟩ := report_refute_iff {} unlimited other (lists.map Clause.ofList)
    (Clause.nodup_of_mem_map_ofList lists)
  simp only [← ClauseSet.holdsInhabited_bare_iff] at conflict saturated
  have reports : (bare.report = .conflict → merged.report = .conflict) ∧
      (bare.report = merged.report ↔ (bare.report = .saturated → ⟨[]⟩ ∉ bare.set.toList)) := by
    rcases report_refute_cases valid unlimited begun environment with
      ⟨ended, refuted⟩ | ⟨ended, ⟨empty, refuted⟩ | ⟨absent, satisfied⟩⟩
    · have same : merged.report = .conflict := conflict.mpr refuted
      refine ⟨fun _ => same, iff_of_true (ended.trans same.symm) ?_⟩
      exact fun impossible => absurd (ended.symm.trans impossible) nofun
    · have same : merged.report = .conflict := conflict.mpr refuted
      refine ⟨fun _ => same, iff_of_false ?_ fun absent => absent ended empty⟩
      exact fun agree => absurd (ended.symm.trans (agree.trans same)) nofun
    · have same : merged.report = .saturated := saturated.mpr satisfied
      refine ⟨?_, iff_of_true (ended.trans same.symm) fun _ => absent⟩
      exact fun impossible => absurd (ended.symm.trans impossible) nofun
  refine ⟨reports.1, reports.2, ?_⟩
  intro units
  have recorded : Recorded (.ofList (lists.map Clause.mk)) bare.set bare.derivation :=
    (derived_calls {} _ [.refute environment]).recorded
  have absent := recorded.empty_not_mem begun fun clause member =>
    units clause.literals (offered clause member)
  exact reports.2.mpr fun _ => absent

/-- The clauses `p || q || q`, `!p` and `!q` are refuted with or without the repeat. -/
theorem report_refute_bare_disjunction :
    let lists : List (List Literal) :=
      [[⟨"p", false⟩, ⟨"q", false⟩, ⟨"q", false⟩], [⟨"p", true⟩], [⟨"q", true⟩]]
    let bare := (start {} (.ofList (lists.map Clause.mk))).refute {}
    let merged := (start {} (.ofList (lists.map Clause.ofList))).refute {}
    [] ∉ lists ∧ bare.report = .conflict ∧ bare.report = merged.report := by
  intro lists bare merged
  have inhabited : [] ∉ lists := by decide
  have general := report_refute_bare lists inhabited {} {}
  exact ⟨inhabited, by decide, general.2.2 (by decide)⟩

/-- The clauses `p || p` and `!p || !p` leave the empty clause, and are reported as saturated. -/
theorem not_report_refute_bare :
    ¬ ∀ (lists : List (List Literal)) (environment : Environment), [] ∉ lists →
      ((start {} (.ofList (lists.map Clause.mk))).refute environment).report =
        ((start {} (.ofList (lists.map Clause.ofList))).refute environment).report := by
  intro agree
  have equal := agree [[⟨"p", false⟩, ⟨"p", false⟩], [⟨"p", true⟩, ⟨"p", true⟩]] {} (by decide)
  revert equal
  decide

end Engine
end Clausal
