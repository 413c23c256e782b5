import Clausal.Proofs.NormalForm.Settled

set_option autoImplicit false

namespace Clausal

/-- Lists of literals to be kept as they are: legible, with no literal twice or beside
its inverse, and no two of the same literals. -/
structure Irredundant (lists : List (List Literal)) : Prop where
  legible : ∀ literals ∈ lists, Legible literals
  distinct : ∀ literals ∈ lists, literals.Nodup
  proper : ∀ literals ∈ lists, ∀ literal ∈ literals, literal.negate ∉ literals
  apart : lists.Pairwise fun literals others =>
    ¬ ∀ literal, literal ∈ literals ↔ literal ∈ others

/-- A conjunction of disjunctions of literals in which there is nothing to be merged. -/
def Formula.Canonical (formula : Formula) : Prop :=
  ∃ lists, Irredundant lists ∧ formula = .and (lists.map disjunctionOf)

theorem Clause.ofList_of_nodup (literals : List Literal) (distinct : literals.Nodup) :
    ofList literals = ⟨literals⟩ := by
  have kept : literals.eraseDups = literals := by
    induction literals with
    | nil => rfl
    | cons literal rest ih =>
        obtain ⟨absent, distinct⟩ := List.nodup_cons.mp distinct
        have others : rest.filter (fun other => !other == literal) = rest := by
          rw [List.filter_eq_self]
          intro other member
          have differ : other ≠ literal := fun same => absent (same ▸ member)
          simpa using differ
        rw [List.eraseDups_cons, others, ih distinct]
  rw [ofList, kept]

namespace ClauseSet

theorem Valid.canonical_toFormula {set : ClauseSet} (valid : set.Valid)
    (legible : ∀ clause ∈ set.toList, Legible clause.literals)
    (distinct : ∀ clause ∈ set.toList, clause.literals.Nodup) : set.toFormula.Canonical := by
  refine ⟨set.toList.map Clause.literals, ⟨?legible, ?distinct, ?proper, ?apart⟩, ?written⟩
  case legible => exact List.forall_mem_map.mpr legible
  case distinct => exact List.forall_mem_map.mpr distinct
  case proper =>
    rw [List.forall_mem_map]
    intro clause member literal inside inverse
    have tautology := (Clause.isTautology_iff clause).mpr ⟨literal, inside, inverse⟩
    rw [valid.proper clause member] at tautology
    cases tautology
  case apart =>
    rw [List.pairwise_map]
    refine valid.apart.imp_of_mem ?_
    intro clause other first second differ same
    exact differ (Clause.canonical_eq_of_mem_iff clause other (distinct clause first)
      (distinct other second) same)
  case written =>
    rw [List.map_map]
    rfl

theorem legible_of_ofFormula (node : Formula) (set : ClauseSet) (read : ofFormula node = .ok set) :
    ∀ clause ∈ set.toList, Legible clause.literals := by
  obtain ⟨lists, legible, _, rfl⟩ := (ofFormula_eq_ok node set).mp read
  intro clause member
  obtain ⟨literals, listed, rfl⟩ := List.mem_map.mp (mem_of_mem_ofList _ clause member)
  obtain ⟨inhabited, named⟩ := legible literals listed
  obtain ⟨literal, inside⟩ := List.exists_mem_of_ne_nil literals inhabited
  refine ⟨List.ne_nil_of_mem ((Clause.mem_ofList literal literals).mpr inside), ?_⟩
  exact fun literal found => named literal ((Clause.mem_ofList _ _).mp found)

theorem canonical_of_ofFormula (node : Formula) (set : ClauseSet)
    (read : ofFormula node = .ok set) : set.toFormula.Canonical := by
  have legible := legible_of_ofFormula node set read
  obtain ⟨lists, _, _, rfl⟩ := (ofFormula_eq_ok node set).mp read
  apply (valid_ofList _).canonical_toFormula legible
  intro clause member
  exact Clause.nodup_of_mem_map_ofList lists clause (mem_of_mem_ofList _ clause member)

end ClauseSet

theorem Irredundant.toList_ofList {lists : List (List Literal)} (irredundant : Irredundant lists) :
    (ClauseSet.ofList (lists.map Clause.ofList)).toList = lists.map Clause.mk := by
  have bare : lists.map Clause.ofList = lists.map Clause.mk :=
    List.map_congr_left fun literals member =>
      Clause.ofList_of_nodup literals (irredundant.distinct literals member)
  rw [bare]
  apply ClauseSet.toList_ofList
  · rw [List.forall_mem_map]
    intro literals member
    rw [Bool.eq_false_iff, ne_eq, Clause.isTautology_iff]
    intro ⟨literal, inside, inverse⟩
    exact irredundant.proper literals member literal inside inverse
  · rw [List.pairwise_map]
    refine irredundant.apart.imp ?_
    intro literals others differ same
    exact differ fun literal => Clause.mem_iff_of_canonical_eq ⟨literals⟩ ⟨others⟩ literal same

namespace Formula

theorem disjunctive_disjunctionOf (literals : List Literal) (legible : Legible literals) :
    (disjunctionOf literals).Disjunctive := by
  apply Disjunctive.or
  · simpa using legible.1
  · rw [List.forall_mem_map]
    exact fun literal member => .literal literal (legible.2 literal member)

theorem flattened_disjunctions (lists : List (List Literal)) :
    (and (lists.map disjunctionOf)).flattened = .and (lists.map disjunctionOf) := by
  have leaf : ∀ literal : Literal, literal.toFormula.disjuncts = [literal.toFormula] := by
    rintro ⟨atom, negated⟩
    cases negated <;> rfl
  have clauses : ∀ literals,
      (disjunctionOf literals).disjuncts = literals.map Literal.toFormula := by
    intro literals
    rw [disjunctionOf, disjuncts, disjunctsAll_eq, List.flatMap_map]
    simp only [leaf]
    exact List.flatMap_pure_eq_map Literal.toFormula literals
  have whole : (and (lists.map disjunctionOf)).conjuncts = lists.map disjunctionOf := by
    rw [conjuncts, conjunctsAll_eq, List.flatMap_map]
    exact List.flatMap_pure_eq_map disjunctionOf lists
  rw [flattened, whole, List.map_map]
  simp only [Function.comp_def, clauses]
  rfl

namespace Canonical

variable {formula : Formula}

theorem conjunctive (canonical : formula.Canonical) : formula.Conjunctive := by
  obtain ⟨lists, irredundant, rfl⟩ := canonical
  apply Conjunctive.and
  rw [List.forall_mem_map]
  exact fun literals member =>
    .disjunctive _ (disjunctive_disjunctionOf literals (irredundant.legible literals member))

/-- A canonical formula is read as the set of its clauses, each under the key of its place. -/
theorem ofFormula (canonical : formula.Canonical) :
    ∃ set, ClauseSet.ofFormula formula = .ok set ∧ set.toFormula = formula := by
  obtain ⟨lists, irredundant, rfl⟩ := canonical
  refine ⟨.ofList (lists.map Clause.ofList), ?read, ?written⟩
  case read =>
    exact (ClauseSet.ofFormula_eq_ok _ _).mpr ⟨lists, irredundant.legible, rfl, rfl⟩
  case written =>
    change Formula.and (ClauseSet.toList _ |>.map Clause.toFormula) = _
    rw [irredundant.toList_ofList, List.map_map]
    rfl

theorem apply_eq (canonical : formula.Canonical) (pass : Pass) :
    Pass.apply formula pass = .ok formula := by
  have shape := canonical.conjunctive
  have pushed := shape.pushed.throughout
  have faultless := shape.pushed.faultless
  cases pass with
  | biconditions =>
      rw [Pass.apply, eliminateBiconditions_eq faultless (pushed.imp fun _ => Pushed.unequated)]
      rfl
  | conditions =>
      rw [Pass.apply, eliminateConditions_eq faultless (pushed.imp fun _ => Pushed.unconditional)]
      rfl
  | negations =>
      rw [Pass.apply, pushNegations_eq faultless (pushed.imp fun _ => Pushed.negationStopped)]
      rfl
  | distribution =>
      have spread := shape.throughout.imp fun _ => Conjunctive.undistributable
      rw [Pass.apply, distribute_eq faultless spread]
      rfl
  | collapse =>
      obtain ⟨set, read, written⟩ := canonical.ofFormula
      obtain ⟨lists, _, rfl⟩ := canonical
      rw [Pass.apply, collapse, collapseToClauseSet, shape.checkCollapsible,
        flattened_disjunctions, read]
      exact congrArg Except.ok written

theorem normalForm_eq (canonical : formula.Canonical) : formula.normalForm = .ok formula := by
  rw [normalForm_eq_passes]
  induction Pass.all with
  | nil => rfl
  | cons pass rest ih => rw [List.foldlM_cons, canonical.apply_eq pass, ok_bind, ih]

end Canonical

theorem canonical_of_collapse (formula changed : Formula)
    (success : formula.collapse = .ok changed) : changed.Canonical := by
  rw [collapse, bind_eq_ok] at success
  obtain ⟨set, collapsed, done⟩ := success
  cases done
  rw [collapseToClauseSet, bind_eq_ok] at collapsed
  obtain ⟨_, _, read⟩ := collapsed
  exact ClauseSet.canonical_of_ofFormula _ set ((lift_eq_ok _ _).mp read)

theorem canonical_of_normalForm (formula normal : Formula)
    (success : formula.normalForm = .ok normal) : normal.Canonical := by
  rw [normalForm, bind_eq_ok] at success
  obtain ⟨set, success, done⟩ := success
  rw [clauseSet, bind_eq_ok] at success
  obtain ⟨distributed, _, collapsed⟩ := success
  apply canonical_of_collapse distributed
  rw [collapse, collapsed]
  exact done

/-- Canonical formulas are the normal forms, and every pass leaves them as they are. -/
theorem canonical_iff_normalForm (formula : Formula) :
    (formula.Canonical ↔ ∃ source : Formula, source.normalForm = .ok formula) ∧
      (formula.Canonical ↔ formula.normalForm = .ok formula) ∧
        (∀ source : Formula, source.collapse = .ok formula → formula.Canonical) ∧
          (formula.Canonical → ∀ pass, Pass.apply formula pass = .ok formula) := by
  refine ⟨⟨?_, ?_⟩, ⟨?_, ?_⟩, ?_, ?_⟩
  · exact fun canonical => ⟨formula, canonical.normalForm_eq⟩
  · exact fun ⟨source, success⟩ => canonical_of_normalForm source formula success
  · exact Canonical.normalForm_eq
  · exact canonical_of_normalForm formula formula
  · exact fun source => canonical_of_collapse source formula
  · exact Canonical.apply_eq

/-- Neither the clauses nor their literals are put in order. -/
theorem canonical_iff_normalForm_unsorted :
    let source : Formula := .and [.or [.atom "b", .or [.atom "a", .not (.atom "a")]],
      .and [.or [.atom "b", .not (.atom "a"), .atom "b"], .or [.not (.atom "a"), .atom "b"]],
      .atom "a"]
    let formula : Formula := .and [.or [.atom "b", .not (.atom "a")], .or [.atom "a"]]
    source.collapse = .ok formula ∧ formula.Canonical ∧ formula.normalForm = .ok formula ∧
      ∀ pass, Pass.apply formula pass = .ok formula := by
  intro source formula
  have collapsed : source.collapse = .ok formula := by rfl
  have general := canonical_iff_normalForm formula
  have canonical := general.2.2.1 source collapsed
  exact ⟨collapsed, canonical, general.2.1.mp canonical, general.2.2.2 canonical⟩

end Formula

namespace Pass

/-- What a pass leaves of a formula, told node by node but for the last. -/
def Settled : Pass → Formula → Prop
  | .biconditions, formula => formula.Throughout Formula.Unequated
  | .conditions, formula => formula.Throughout Formula.Unconditional
  | .negations, formula => formula.Throughout Formula.NegationStopped
  | .distribution, formula => formula.Throughout Formula.Undistributable
  | .collapse, formula => formula.Canonical

/-- Whatever the formula is, and whichever passes were made on it before, a pass which
is not refused has done all it can: it has settled every node, under arrows and
negations too, and made once more it is not refused and changes nothing. -/
theorem settles (formula changed : Formula) (pass : Pass)
    (success : apply formula pass = .ok changed) :
    apply changed pass = .ok changed ∧ pass.Settled changed := by
  cases pass with
  | biconditions =>
      obtain ⟨faultless, settled⟩ :=
        Formula.settled_of_eliminateBiconditions formula changed ((lift_eq_ok _ _).mp success)
      exact ⟨(lift_eq_ok _ _).mpr (Formula.eliminateBiconditions_eq faultless settled), settled⟩
  | conditions =>
      obtain ⟨faultless, settled⟩ :=
        Formula.settled_of_eliminateConditions formula changed ((lift_eq_ok _ _).mp success)
      exact ⟨(lift_eq_ok _ _).mpr (Formula.eliminateConditions_eq faultless settled), settled⟩
  | negations =>
      obtain ⟨faultless, settled⟩ :=
        Formula.settled_of_pushNegations formula changed ((lift_eq_ok _ _).mp success)
      exact ⟨(lift_eq_ok _ _).mpr (Formula.pushNegations_eq faultless settled), settled⟩
  | distribution =>
      obtain ⟨faultless, settled⟩ :=
        Formula.settled_of_distribute formula changed ((lift_eq_ok _ _).mp success)
      exact ⟨(lift_eq_ok _ _).mpr (Formula.distribute_eq faultless settled), settled⟩
  | collapse =>
      have canonical := Formula.canonical_of_collapse formula changed success
      exact ⟨canonical.apply_eq .collapse, canonical⟩

/-- Pushing brings a conjunction under the first disjunction, spreading makes more
disjunctions, and the negated condition stands in the way of both. -/
theorem settles_in_any_order :
    let formula : Formula := .not (.and [.or [.atom "a", .not (.atom "b")],
      .not (.or [.not (.condition (.or [.and [.atom "a", .atom "b"], .atom "c"]) (.atom "d"))])])
    let pushed : Formula := .or [.and [.not (.atom "a"), .atom "b"],
      .or [.not (.condition (.or [.and [.atom "a", .atom "b"], .atom "c"]) (.atom "d"))]]
    let spread : Formula := .and [
      .or [.not (.atom "a"), .or [.not (.condition
        (.and [.or [.atom "a", .atom "c"], .or [.atom "b", .atom "c"]]) (.atom "d"))]],
      .or [.atom "b", .or [.not (.condition
        (.and [.or [.atom "a", .atom "c"], .or [.atom "b", .atom "c"]]) (.atom "d"))]]]
    apply formula .negations = .ok pushed ∧ apply pushed .distribution = .ok spread ∧
      apply spread .distribution = .ok spread ∧ spread.Throughout Formula.Undistributable := by
  intro formula pushed spread
  have first : apply formula .negations = .ok pushed := rfl
  have second : apply pushed .distribution = .ok spread := rfl
  have settled := settles pushed spread .distribution second
  exact ⟨first, second, settled.1, settled.2⟩

end Pass
end Clausal
