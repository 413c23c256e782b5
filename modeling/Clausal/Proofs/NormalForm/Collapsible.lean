import Clausal.Proofs.NormalForm.Settled

set_option autoImplicit false

namespace Clausal.Formula

/-- What the last pass asks of a formula: no node at fault, no arrow, negations at atoms
alone and, at any depth below a disjunction, no conjunction. -/
structure Collapsible (formula : Formula) : Prop where
  named : .atom "" ∉ formula.subformulas
  inhabited : .or [] ∉ formula.subformulas
  unconditional : ∀ antecedent consequent, .condition antecedent consequent ∉ formula.subformulas
  unequated : ∀ left right, .bicondition left right ∉ formula.subformulas
  negated : ∀ body, .not body ∈ formula.subformulas → body.isAtom = true
  distributed : ∀ disjuncts, .or disjuncts ∈ formula.subformulas →
    ∀ disjunct ∈ disjuncts, ∀ conjuncts, .and conjuncts ∉ disjunct.subformulas

theorem mem_subformulas_self (formula : Formula) : formula ∈ formula.subformulas := by
  rw [subformulas_eq]
  exact List.mem_cons_self

theorem mem_subformulas_of_part {formula part node : Formula} (below : part ∈ formula.parts)
    (member : node ∈ part.subformulas) : node ∈ formula.subformulas := by
  rw [subformulas_eq]
  exact List.mem_cons_of_mem _ (List.mem_flatMap.mpr ⟨part, below, member⟩)

theorem Collapsible.part {formula part : Formula} (collapsible : formula.Collapsible)
    (below : part ∈ formula.parts) : part.Collapsible where
  named member := collapsible.named (mem_subformulas_of_part below member)
  inhabited member := collapsible.inhabited (mem_subformulas_of_part below member)
  unconditional antecedent consequent member :=
    collapsible.unconditional antecedent consequent (mem_subformulas_of_part below member)
  unequated left right member :=
    collapsible.unequated left right (mem_subformulas_of_part below member)
  negated body member := collapsible.negated body (mem_subformulas_of_part below member)
  distributed disjuncts member :=
    collapsible.distributed disjuncts (mem_subformulas_of_part below member)

theorem disjunctive_toFormula {name : String} (sound : (atom name).fault? = none)
    (negated : Bool) : Disjunctive (Literal.toFormula ⟨name, negated⟩) := by
  have named : name ≠ "" := fun unnamed => ((fault?_eq_none_iff _).mp sound).1 (unnamed ▸ rfl)
  exact .literal ⟨name, negated⟩ (by simpa using named)

theorem Collapsible.fault?_eq {formula : Formula} (collapsible : formula.Collapsible) :
    formula.fault? = none := by
  rw [fault?_eq_none_iff]
  constructor
  · rintro rfl
    exact collapsible.named (mem_subformulas_self _)
  · rintro rfl
    exact collapsible.inhabited (mem_subformulas_self _)

theorem Collapsible.not_disjunctive {body : Formula} (collapsible : (not body).Collapsible) :
    (not body).Disjunctive := by
  have inside := collapsible.part (List.mem_singleton_self body)
  have single := collapsible.negated body (mem_subformulas_self _)
  cases body with
  | atom name => exact disjunctive_toFormula inside.fault?_eq true
  | _ => cases single

theorem Collapsible.disjunctive {formula : Formula} (collapsible : formula.Collapsible)
    (single : ∀ conjuncts, formula ≠ .and conjuncts) : formula.Disjunctive := by
  induction formula with
  | atom name => exact disjunctive_toFormula collapsible.fault?_eq false
  | not body => exact collapsible.not_disjunctive
  | and conjuncts => exact absurd rfl (single conjuncts)
  | or disjuncts ih =>
      apply Disjunctive.or
      · exact fun empty => collapsible.inhabited (empty ▸ mem_subformulas_self _)
      · intro part member
        apply ih part member (collapsible.part member)
        rintro conjuncts rfl
        exact collapsible.distributed disjuncts (mem_subformulas_self _) _ member conjuncts
          (mem_subformulas_self _)
  | condition antecedent consequent =>
      exact absurd (mem_subformulas_self _) (collapsible.unconditional antecedent consequent)
  | bicondition left right =>
      exact absurd (mem_subformulas_self _) (collapsible.unequated left right)

theorem Collapsible.conjunctive {formula : Formula} (collapsible : formula.Collapsible) :
    formula.Conjunctive := by
  induction formula with
  | and conjuncts ih => exact .and _ fun part member => ih part member (collapsible.part member)
  | _ => exact .disjunctive _ (collapsible.disjunctive nofun)

theorem Conjunctive.collapsible {formula : Formula} (conjunctive : formula.Conjunctive) :
    formula.Collapsible := by
  have pushed := conjunctive.pushed.throughout
  have faultless := (faultless_iff_not_mem formula).mp conjunctive.pushed.faultless
  constructor
  case named => exact faultless.1
  case inhabited => exact faultless.2
  case unconditional =>
    intro antecedent consequent member
    exact (pushed _ member).unconditional antecedent consequent rfl
  case unequated =>
    intro left right member
    exact (pushed _ member).unequated left right rfl
  case negated =>
    intro body member
    exact (pushed _ member).isAtom_of_not
  case distributed =>
    intro disjuncts member disjunct below conjuncts inside
    have clause := (conjunctive.throughout _ member).disjunctive_of_or disjunct below
    exact (clause.throughout _ inside).ne_and conjuncts rfl

theorem fault?_of_collapseFault? {place : Option Formula × Formula}
    (sound : collapseFault? place = none) : place.2.fault? = none := by
  unfold collapseFault? at sound
  cases fault : place.2.fault? with
  | none => rfl
  | some cause =>
      rw [fault] at sound
      cases sound

/-- A formula which the check lets pass, and which is below a disjunction or no conjunction
itself, has no conjunction in it. -/
theorem disjunctive_of_sound (formula : Formula) (above : Option Formula)
    (single : above = none → ∀ conjuncts, formula ≠ .and conjuncts)
    (sound : ∀ place ∈ formula.occurrences disjunctionBelow above,
      collapseFault? place = none) : formula.Disjunctive := by
  rw [occurrences_eq, List.forall_mem_cons, List.forall_mem_flatMap] at sound
  obtain ⟨own, below⟩ := sound
  induction formula generalizing above with
  | atom name => exact disjunctive_toFormula (fault?_of_collapseFault? own) false
  | not body =>
      cases body with
      | atom name =>
          have inside := below _ (List.mem_singleton_self _) _ List.mem_cons_self
          exact disjunctive_toFormula (fault?_of_collapseFault? inside) true
      | _ => cases own
  | and conjuncts =>
      cases above with
      | none => exact absurd rfl (single rfl conjuncts)
      | some disjunction => cases own
  | or disjuncts ih =>
      apply Disjunctive.or
      · rintro rfl
        cases own
      · intro part member
        have inside := below part member
        rw [occurrences_eq, List.forall_mem_cons, List.forall_mem_flatMap] at inside
        exact ih part member (some (.or disjuncts)) nofun inside.1 inside.2
  | condition antecedent consequent => cases own
  | bicondition left right => cases own

theorem conjunctive_of_sound (formula : Formula)
    (sound : ∀ place ∈ formula.occurrences disjunctionBelow none, collapseFault? place = none) :
    formula.Conjunctive := by
  induction formula with
  | and conjuncts ih =>
      rw [occurrences_eq, List.forall_mem_cons, List.forall_mem_flatMap] at sound
      exact .and conjuncts fun part member => ih part member (sound.2 part member)
  | _ => exact .disjunctive _ (disjunctive_of_sound _ none (fun _ => nofun) sound)

theorem checkCollapsible_eq_ok (formula : Formula) :
    formula.checkCollapsible = .ok () ↔ formula.Conjunctive := by
  constructor
  · intro checked
    rw [checkCollapsible, failWith_eq_ok, List.findSome?_eq_none_iff] at checked
    exact conjunctive_of_sound formula checked
  · exact Conjunctive.checkCollapsible

theorem collapseFault?_eq_some {place : Option Formula × Formula} {failure : Failure}
    (refused : collapseFault? place = some failure) :
    (∃ cause, failure = .uncollapsible cause) ∨ failure = .malformed .unnamedAtom ∨
      failure = .malformed .emptyDisjunction := by
  unfold collapseFault? at refused
  cases fault : place.2.fault? with
  | some cause =>
      rw [fault] at refused
      cases refused
      rcases (fault?_eq_some _ _).mp fault with ⟨_, rfl⟩ | ⟨_, rfl⟩
      · exact Or.inr (Or.inl rfl)
      · exact Or.inr (Or.inr rfl)
  | none =>
      rw [fault] at refused
      dsimp only at refused
      split at refused <;> cases refused <;> exact Or.inl ⟨_, rfl⟩

theorem collapseToClauseSet_failure (formula : Formula) (failure : Failure)
    (failed : formula.collapseToClauseSet = .error failure) :
    ∃ place ∈ formula.occurrences disjunctionBelow none, collapseFault? place = some failure := by
  cases search : (formula.occurrences disjunctionBelow none).findSome? collapseFault? with
  | none =>
      rw [List.findSome?_eq_none_iff] at search
      rw [(conjunctive_of_sound formula search).collapse] at failed
      cases failed
  | some cause =>
      rw [collapseToClauseSet, checkCollapsible, search] at failed
      cases failed
      exact List.exists_of_findSome?_eq_some search

/-- The largest subformulas which are no conjunctions, from left to right: the nodes which
are none and have only conjunctions above them. -/
def outermost (formula : Formula) : List Formula :=
  ((formula.occurrences (fun exposed node => exposed && node.isConjunction) true).filter
    fun place => place.1 && !place.2.isConjunction).map Prod.snd

theorem not_exposed (formula : Formula) :
    ∀ place ∈ formula.occurrences (fun exposed node => exposed && node.isConjunction) false,
      place.1 = false := by
  induction formula using inductParts with
  | node formula ih =>
      rw [occurrences_eq, List.forall_mem_cons, List.forall_mem_flatMap]
      exact ⟨rfl, ih⟩

theorem outermost_eq_conjuncts (formula : Formula) : formula.outermost = formula.conjuncts := by
  have leaf : ∀ node : Formula, node.isConjunction = false → node.outermost = [node] := by
    intro node single
    have nothing : (node.parts.flatMap (occurrences
        (fun exposed node => exposed && node.isConjunction) false)).filter
          (fun place => place.1 && !place.2.isConjunction) = [] := by
      rw [List.filter_eq_nil_iff, List.forall_mem_flatMap]
      intro part _ place member
      simp [not_exposed part place member]
    rw [outermost, occurrences_eq, single, Bool.and_false, List.filter_cons, nothing]
    simp [single]
  induction formula with
  | and parts ih =>
      rw [outermost, occurrences_eq]
      show ((parts.flatMap _).filter _).map Prod.snd = _
      rw [List.filter_flatMap, List.map_flatMap, conjuncts, conjunctsAll_eq]
      exact List.flatMap_congr ih
  | _ => exact leaf _ rfl

/-- The last pass accepts a formula if and only if its precondition is met. The set is then
that of the literals of each outermost part which is no conjunction, in order; otherwise
the failure is that of a node the check met, never of a reader. -/
theorem collapseToClauseSet_exact (formula : Formula) :
    ((∃ set, formula.collapseToClauseSet = .ok set) ↔ formula.Collapsible) ∧
      (∀ set, formula.collapseToClauseSet = .ok set →
        set = .ofList (formula.outermost.map fun part => .ofList part.literals)) ∧
        ∀ failure, formula.collapseToClauseSet = .error failure →
          (∃ cause, failure = .uncollapsible cause) ∨ failure = .malformed .unnamedAtom ∨
            failure = .malformed .emptyDisjunction := by
  have accepted : ∀ set, formula.collapseToClauseSet = .ok set → formula.Conjunctive := by
    intro set success
    obtain ⟨_, checked, _⟩ := (bind_eq_ok _ _ _).mp success
    exact (checkCollapsible_eq_ok formula).mp checked
  refine ⟨⟨?precondition, ?success⟩, ?clauses, ?failure⟩
  case precondition => exact fun ⟨set, success⟩ => (accepted set success).collapsible
  case success => exact fun collapsible => ⟨_, collapsible.conjunctive.collapse⟩
  case clauses =>
    intro set success
    rw [(accepted set success).collapse, Except.ok.injEq] at success
    rw [outermost_eq_conjuncts, success]
  case failure =>
    intro failure failed
    obtain ⟨place, _, refused⟩ := collapseToClauseSet_failure formula failure failed
    exact collapseFault?_eq_some refused

/-- An empty conjunction leaves no clause among conjunctions, and no way on below a
disjunction, however far below. -/
theorem collapseToClauseSet_exact_nested :
    let formula : Formula := .and [.and [], .or [.or [.atom "b", .not (.atom "a")], .atom "b"],
      .and [.not (.atom "a"), .and []]]
    let set : ClauseSet := .ofList [.ofList [⟨"b", false⟩, ⟨"a", true⟩, ⟨"b", false⟩],
      .ofList [⟨"a", true⟩]]
    let refused : Formula := .or [.atom "a", .or [.atom "b", .and []]]
    let cause : Uncollapsible := .undistributed (.or [.atom "b", .and []])
    formula.collapseToClauseSet = .ok set ∧ formula.Collapsible ∧
      set = .ofList (formula.outermost.map fun part => .ofList part.literals) ∧
        refused.collapseToClauseSet = .error (.uncollapsible cause) ∧ ¬ refused.Collapsible := by
  intro formula set refused cause
  have accepted : formula.collapseToClauseSet = .ok set := rfl
  have undistributed : refused.collapseToClauseSet = .error (.uncollapsible cause) := rfl
  have general := collapseToClauseSet_exact formula
  refine ⟨accepted, general.1.mp ⟨set, accepted⟩, general.2.1 set accepted, undistributed, ?_⟩
  intro collapsible
  obtain ⟨other, success⟩ := (collapseToClauseSet_exact refused).1.mpr collapsible
  rw [undistributed] at success
  cases success

end Clausal.Formula
