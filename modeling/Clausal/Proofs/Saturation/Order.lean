import Clausal.Proofs.Saturation.Agreement
import Clausal.Proofs.Saturation.Invariant
import Clausal.Proofs.Saturation.Limits

set_option autoImplicit false

namespace Clausal

/-- Some resolvent of this canonical form is no tautology and is missing from the set. It
may be resolved on any literal, not only on the first to clash. -/
def ClauseSet.Lacks (set : ClauseSet) (form : List Literal) : Prop :=
  form ∉ set.forms ∧ ∃ clause ∈ set.toList, ∃ other ∈ set.toList, ∃ literal ∈ clause.literals,
    literal.negate ∈ other.literals ∧ (Clause.resolveOn literal clause other).isTautology = false ∧
      (Clause.resolveOn literal clause other).canonical = form

/-- What is missing does not depend on the order of clauses or literals. -/
theorem ClauseSet.Lacks.of_perm {set other : ClauseSet} (same : set.forms.Perm other.forms)
    {form : List Literal} (lacks : set.Lacks form) : other.Lacks form := by
  obtain ⟨missing, first, inside, second, inside', literal, own, inverse, proper, made⟩ := lacks
  obtain ⟨first', member, left⟩ := exists_rearranged same first inside
  obtain ⟨second', member', right⟩ := exists_rearranged same second inside'
  have swapped := Clause.mem_resolveOn_congr left right literal
  refine ⟨?_, first', member, second', member', literal, ?_, ?_, ?_, ?_⟩
  · rw [← same.mem_iff]
    exact missing
  · rw [Clause.mem_iff_of_canonical_eq first' first literal left]
    exact own
  · rw [Clause.mem_iff_of_canonical_eq second' second literal.negate right]
    exact inverse
  · rw [Clause.isTautology_congr _ _ swapped, proper]
  · rw [Clause.canonical_resolveOn_eq _ _ _ _ _ _ swapped, made]

namespace Scan.Faithful

variable {names names' : List String} {set other : ClauseSet} {scan scan' : Scan}

theorem conflict_eq_none_iff_of_normal (faithful : scan.Faithful set) (normal : set.Normal names) :
    scan.conflict = none ↔
      ∀ first ∈ set.toList, ∀ second ∈ set.toList, first.isComplementaryTo second = false := by
  constructor
  · intro free first member second member'
    exact faithful.not_isComplementaryTo_of_mem normal free first second member member'
  · intro apart
    rw [faithful.conflict_eq_none_iff]
    intro pair ordered
    rw [Bool.eq_false_iff]
    intro conflict
    obtain ⟨first, second, left, right, complementary⟩ := (isConflict_iff set pair).mp conflict
    rw [apart first ((set.mem_toList_iff first).mpr ⟨_, left⟩) second
      ((set.mem_toList_iff second).mpr ⟨_, right⟩)] at complementary
    cases complementary

theorem free_of_perm (faithful : scan.Faithful set) (faithful' : scan'.Faithful other)
    (normal : set.Normal names) (normal' : other.Normal names')
    (same : set.forms.Perm other.forms) (free : scan.conflict = none) : scan'.conflict = none := by
  rw [faithful'.conflict_eq_none_iff_of_normal normal']
  intro first member second member'
  obtain ⟨first', inside, left⟩ := ClauseSet.exists_rearranged same.symm first member
  obtain ⟨second', inside', right⟩ := ClauseSet.exists_rearranged same.symm second member'
  rw [← Clause.isComplementaryTo_congr left right]
  exact faithful.not_isComplementaryTo_of_mem normal free first' second' inside inside'

/-- A scan without a conflict stages each form which is missing once, and no other. -/
theorem mem_forms_iff (faithful : scan.Faithful set) (valid : set.Valid)
    (free : scan.conflict = none) (form : List Literal) : form ∈ scan.forms ↔ set.Lacks form := by
  constructor
  · intro staged
    obtain ⟨entry, member, made⟩ := List.mem_map.mp staged
    obtain ⟨_, first, second, left, right, able, resolved, proper, fresh⟩ :=
      (resolvent?_eq_some_iff set _ entry).mp (faithful.staged entry member).2
    obtain ⟨literal, found⟩ : ∃ literal, first.pivot? second = some literal := by
      rw [Clause.canResolveWith, Bool.and_eq_true] at able
      exact Option.isSome_iff_exists.mp able.1
    obtain ⟨own, inverse⟩ := Clause.mem_of_pivot? first second literal found
    rw [Clause.resolveWith_eq_resolveOn first second literal found] at resolved
    refine ⟨?_, first, (set.mem_toList_iff first).mpr ⟨_, left⟩, second,
      (set.mem_toList_iff second).mpr ⟨_, right⟩, literal, own, inverse, ?_, ?_⟩
    · rw [← made, ← valid.contains_iff_mem_forms, fresh]
      simp
    · rw [resolved, proper]
    · rw [resolved, made]
  · rintro ⟨missing, first, member, second, member', literal, own, inverse, proper, made⟩
    rw [← made] at missing ⊢
    exact (faithful.mem_forms valid free first second member member' literal own inverse
      proper).resolve_left missing

theorem perm_forms (faithful : scan.Faithful set) (faithful' : scan'.Faithful other)
    (valid : set.Valid) (valid' : other.Valid) (same : set.forms.Perm other.forms)
    (free : scan.conflict = none) (free' : scan'.conflict = none) :
    scan.forms.Perm scan'.forms := by
  have apart : scan.forms.Nodup := List.pairwise_map.mpr faithful.apart
  have apart' : scan'.forms.Nodup := List.pairwise_map.mpr faithful'.apart
  rw [List.perm_ext_iff_of_nodup apart apart']
  intro form
  rw [faithful.mem_forms_iff valid free, faithful'.mem_forms_iff valid' free']
  exact ⟨.of_perm same, .of_perm same.symm⟩

end Scan.Faithful

namespace Engine

/-- Runs whose sets differ by the order of clauses and of literals, and if they have come to
a conflict, by the pairs checked in the round of the conflict. -/
structure Rearranged (engine other : Engine) : Prop where
  set : engine.set.forms.Perm other.set.forms
  report : other.report = engine.report
  rounds : other.rounds = engine.rounds
  pairs : engine.report ≠ .conflict → other.pairs = engine.pairs

section

variable {names names' : List String} {engine other : Engine}

theorem Rearranged.active_iff (rearranged : Rearranged engine other) :
    other.state = .active ↔ engine.state = .active := by
  rw [← report_eq_unknown_iff, ← report_eq_unknown_iff, rearranged.report]

/-- Without a conflict every pair is checked, and there are as many of them in sets of
one size. -/
theorem pairs_of_free (environment : Environment) (engine : Engine)
    (free : (engine.nextScan environment).conflict = none) :
    (engine.nextScan environment).pairs =
      (Scan.pairsOf engine.set.size (List.range engine.set.size)).length := by
  rw [(nextScan_eq_sequential environment engine free).2]
  apply Scan.pairs_of_free (Scan.finds_pairsOf engine.set _)
  change (Scan.sequential engine.set).conflict = none
  rw [(Scan.faithful_sequential engine.set).conflict_eq_none_iff,
    ← (faithful_nextScan environment engine).conflict_eq_none_iff]
  exact free

theorem forms_of_faithful (engine : Engine) (scan : Scan) (faithful : scan.Faithful engine.set) :
    (scan.staged.toList.foldl addStaged (engine.scanned scan)).set.forms =
      engine.set.forms ++ scan.forms := by
  unfold ClauseSet.forms Scan.forms
  rw [toList_of_faithful engine scan faithful, List.map_append, List.map_map]
  rfl

theorem Rearranged.foldl_addStaged (rearranged : Rearranged engine other) {scan scan' : Scan}
    (faithful : scan.Faithful engine.set) (faithful' : scan'.Faithful other.set)
    (staged : scan.forms.Perm scan'.forms)
    (pairs : other.pairs + scan'.pairs = engine.pairs + scan.pairs) :
    Rearranged (scan.staged.toList.foldl addStaged (engine.scanned scan))
      (scan'.staged.toList.foldl addStaged (other.scanned scan')) := by
  have forms : (scan.staged.toList.foldl addStaged (engine.scanned scan)).set.forms.Perm
      (scan'.staged.toList.foldl addStaged (other.scanned scan')).set.forms := by
    rw [forms_of_faithful engine scan faithful, forms_of_faithful other scan' faithful']
    exact rearranged.set.append staged
  obtain ⟨_, _, _, grown⟩ := foldl_addStaged_eq scan.staged.toList (engine.scanned scan)
  obtain ⟨_, _, _, grown'⟩ := foldl_addStaged_eq scan'.staged.toList (other.scanned scan')
  rw [grown, grown'] at forms ⊢
  exact ⟨forms, rearranged.report, congrArg (· + 1) rearranged.rounds, fun _ => pairs⟩

/-- A round adds the same clauses to both, whichever of their rearrangements it meets first. -/
theorem Rearranged.step (rearranged : Rearranged engine other) (normal : engine.set.Normal names)
    (normal' : other.set.Normal names') (environment environment' : Environment) :
    Rearranged (engine.step environment) (other.step environment') := by
  by_cases active : engine.state = .active
  · have active' := rearranged.active_iff.mpr active
    have faithful := faithful_nextScan environment engine
    have faithful' := faithful_nextScan environment' other
    have same := rearranged.set
    have unfinished := report_ne_conflict active
    have counted := rearranged.rounds
    rw [step_of_active environment engine active, step_of_active environment' other active']
    cases found : (engine.nextScan environment).conflict with
    | some pair =>
        have found' : (other.nextScan environment').conflict ≠ none := by
          intro free'
          have free := faithful'.free_of_perm faithful normal' normal same.symm free'
          rw [found] at free
          cases free
        obtain ⟨pair', found'⟩ := Option.ne_none_iff_exists'.mp found'
        rw [found']
        exact ⟨same, rfl, congrArg (· + 1) counted, fun impossible => absurd rfl impossible⟩
    | none =>
        have found' := faithful.free_of_perm faithful' normal normal' same found
        rw [found']
        have pairs : other.pairs + (other.nextScan environment').pairs =
            engine.pairs + (engine.nextScan environment).pairs := by
          rw [pairs_of_free environment engine found, pairs_of_free environment' other found',
            rearranged.pairs unfinished, ClauseSet.size_eq_of_perm same]
        have staged := faithful.perm_forms faithful' normal.toValid normal'.toValid same found found'
        have idle : (other.nextScan environment').staged.toList = [] ↔
            (engine.nextScan environment).staged.toList = [] := by
          have length := staged.length_eq
          simp only [Scan.forms, List.length_map] at length
          rw [← List.length_eq_zero_iff, ← List.length_eq_zero_iff, length]
        dsimp only
        simp only [idle]
        split
        · exact ⟨same, rfl, congrArg (· + 1) counted, fun _ => pairs⟩
        · exact rearranged.foldl_addStaged faithful faithful' staged pairs
  · have ended := fun active' => active (rearranged.active_iff.mp active')
    rw [step_of_ne_active environment engine active, step_of_ne_active environment' other ended]
    exact rearranged

end

theorem rearranged_iterate {names names' : List String} (config config' : Config)
    (environment environment' : Environment) {set other : ClauseSet} (normal : set.Normal names)
    (normal' : other.Normal names') (same : set.forms.Perm other.forms) (rounds : Nat) :
    Rearranged ((step environment)^[rounds] (start config set))
      ((step environment')^[rounds] (start config' other)) := by
  -- Both sets stay without repeats, or a clause might be complementary to another and not the
  -- other to it.
  induction rounds with
  | zero => exact ⟨same, rfl, rfl, fun _ => rfl⟩
  | succ rounds ih =>
      rw [Function.iterate_succ_apply', Function.iterate_succ_apply']
      rw [iterate_step_eq_calls, iterate_step_eq_calls] at ih ⊢
      exact ih.step (normal_calls normal _) (normal_calls normal' _) environment environment'

/-- However the clauses are listed and their literals within them, after any number of rounds
the sets are equal, the runs are open, saturated or refuted alike, and their counts agree. -/
theorem order_irrelevant (lists lists' : List (List Literal)) (config config' : Config)
    (environment environment' : Environment)
    (same : (ClauseSet.ofList (lists.map Clause.ofList)).sameAs
      (.ofList (lists'.map Clause.ofList)) = true) (rounds : Nat) :
    let engine := (step environment)^[rounds] (start config (.ofList (lists.map Clause.ofList)))
    let other := (step environment')^[rounds] (start config' (.ofList (lists'.map Clause.ofList)))
    engine.set.sameAs other.set = true ∧ other.report = engine.report ∧
      other.rounds = engine.rounds ∧ other.resolvents = engine.resolvents ∧
        (engine.report ≠ .conflict → other.pairs = engine.pairs) := by
  intro engine other
  have normal := ClauseSet.normal_ofList _ (Clause.nodup_of_mem_map_ofList lists)
  have normal' := ClauseSet.normal_ofList _ (Clause.nodup_of_mem_map_ofList lists')
  have forms := (normal.toValid.sameAs_iff_perm normal'.toValid).mp same
  have rearranged : Rearranged engine other :=
    rearranged_iterate config config' environment environment' normal normal' forms rounds
  have made : engine = (start config (.ofList (lists.map Clause.ofList))).calls _ :=
    iterate_step_eq_calls environment rounds _
  have made' : other = (start config' (.ofList (lists'.map Clause.ofList))).calls _ :=
    iterate_step_eq_calls environment' rounds _
  have valid : engine.set.Valid := made ▸ (normal_calls normal _).toValid
  have valid' : other.set.Valid := made' ▸ (normal_calls normal' _).toValid
  refine ⟨(valid.sameAs_iff_perm valid').mpr rearranged.set, rearranged.report, rearranged.rounds,
    ?_, rearranged.pairs⟩
  have size : engine.set.size = _ + engine.resolvents := made ▸ resolvents_calls config _ _
  have size' : other.set.size = _ + other.resolvents := made' ▸ resolvents_calls config' _ _
  rw [ClauseSet.size_eq_of_perm rearranged.set, size, ClauseSet.size_eq_of_perm forms] at size'
  omega

/-- The first two clauses clash on both atoms, and what the others derive is found in another
order. -/
theorem order_irrelevant_two_clashes :
    let lists : List (List Literal) := [[⟨"p", false⟩, ⟨"q", false⟩], [⟨"p", true⟩, ⟨"q", true⟩],
      [⟨"p", true⟩, ⟨"r", false⟩], [⟨"r", true⟩]]
    let lists' : List (List Literal) := [[⟨"r", true⟩], [⟨"r", false⟩, ⟨"p", true⟩],
      [⟨"q", true⟩, ⟨"p", true⟩, ⟨"q", true⟩], [⟨"q", false⟩, ⟨"p", false⟩]]
    let set := ClauseSet.ofList (lists.map Clause.ofList)
    let set' := ClauseSet.ofList (lists'.map Clause.ofList)
    let engine := (step {})^[1] (start {} set)
    let other := (step {})^[1] (start { workers := 2 } set')
    set.sameAs set' = true ∧ engine.set.size = 6 ∧ engine.resolvents = 2 ∧
      engine.set.toList.drop 4 ≠ other.set.toList.drop 4 ∧
      engine.set.sameAs other.set = true ∧ engine.report = .unknown ∧
      other.report = engine.report ∧ other.rounds = engine.rounds ∧
      other.resolvents = engine.resolvents ∧ other.pairs = engine.pairs := by
  intro lists lists' set set' engine other
  have same : set.sameAs set' = true := by decide
  have unfinished : engine.report = .unknown := by decide
  obtain ⟨sets, report, rounds, resolvents, pairs⟩ :=
    order_irrelevant lists lists' {} { workers := 2 } {} {} same 1
  refine ⟨same, by decide, by decide, by decide, sets, unfinished, report, rounds, resolvents,
    pairs ?_⟩
  rw [unfinished]
  exact nofun

end Engine
end Clausal
