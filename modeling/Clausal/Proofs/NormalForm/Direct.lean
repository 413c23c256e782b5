import Clausal.Proofs.NormalForm.Truth

set_option autoImplicit false

namespace Clausal

section

variable {α β : Type}

/-- Every way to choose one option of each list, the choice from the first list
varying slowest. -/
def choices : List (List α) → List (List α)
  | [] => [[]]
  | options :: rest => options.flatMap fun option => (choices rest).map (option :: ·)

theorem map_choices (change : α → β) (lists : List (List α)) :
    (choices lists).map (List.map change) = choices (lists.map (List.map change)) := by
  induction lists with
  | nil => rfl
  | cons options rest ih =>
      rw [choices, List.map_cons, choices, List.map_flatMap, List.flatMap_map, ← ih]
      simp only [List.map_map, Function.comp_def, List.map_cons]

/-- Every way to join one list of each factor, the first factor varying slowest. -/
def product (factors : List (List (List α))) : List (List α) :=
  (choices factors).map List.flatten

/-- The clauses of a conjunction from those of each part, or those of a disjunction. -/
def joined (conjunctive : Bool) (factors : List (List (List α))) : List (List α) :=
  if conjunctive then factors.flatten else product factors

theorem map_joined (change : α → β) (conjunctive : Bool) (factors : List (List (List α))) :
    (joined conjunctive factors).map (List.map change) =
      joined conjunctive (factors.map (List.map (List.map change))) := by
  cases conjunctive with
  | true => exact List.map_flatten
  | false =>
      change (product factors).map _ = product _
      rw [product, product, ← map_choices, List.map_map, List.map_map]
      apply List.map_congr_left
      intro choice _
      exact List.map_flatten

end

namespace Formula

mutual

/-- The clauses of a formula, or of its negation, as lists of literals: repeated
literals, repeated clauses and tautologies are all still there. -/
def signedClauses : Bool → Formula → List (List Literal)
  | positive, .atom name => [[⟨name, !positive⟩]]
  | positive, .not body => signedClauses (!positive) body
  | positive, .and conjuncts => joined positive (signedClausesAll positive conjuncts)
  | positive, .or disjuncts => joined (!positive) (signedClausesAll positive disjuncts)
  | positive, .condition antecedent consequent =>
      joined (!positive) [signedClauses positive consequent, signedClauses (!positive) antecedent]
  | positive, .bicondition left right =>
      joined positive
        [joined (!positive) [signedClauses positive right, signedClauses (!positive) left],
          joined (!positive) [signedClauses positive left, signedClauses (!positive) right]]

def signedClausesAll : Bool → List Formula → List (List (List Literal))
  | _, [] => []
  | positive, part :: rest => signedClauses positive part :: signedClausesAll positive rest

end

theorem signedClausesAll_eq (positive : Bool) (parts : List Formula) :
    signedClausesAll positive parts = parts.map (signedClauses positive) := by
  induction parts with
  | nil => rfl
  | cons part rest ih => rw [signedClausesAll, List.map_cons, ih]

/-- The disjuncts of each conjunct, as collapsing reads them. -/
def matrix (formula : Formula) : List (List Formula) :=
  formula.conjuncts.map disjuncts

theorem conjuncts_overConjuncts (change : Formula → Formula) (formula : Formula) :
    (formula.overConjuncts change).conjuncts =
      formula.conjuncts.flatMap fun leaf => (change leaf).conjuncts := by
  induction formula with
  | and parts ih =>
      rw [overConjuncts, overConjunctsAll_eq, conjuncts, conjunctsAll_eq, conjuncts,
        conjunctsAll_eq, List.flatMap_map, List.flatMap_assoc]
      exact List.flatMap_congr ih
  | _ => simp [overConjuncts, conjuncts]

theorem conjuncts_spread (chosen rest : List Formula) :
    (spread chosen rest).conjuncts =
      (choices (rest.map conjuncts)).map fun choice => .or (chosen ++ choice) := by
  induction rest generalizing chosen with
  | nil => simp [spread, conjuncts, choices]
  | cons disjunct rest ih =>
      rw [spread, conjuncts_overConjuncts, List.map_cons, choices, List.map_flatMap]
      apply List.flatMap_congr
      intro leaf _
      rw [ih, List.map_map]
      simp only [Function.comp_def, List.append_assoc, List.singleton_append]

theorem matrix_and (conjuncts : List Formula) :
    (and conjuncts).matrix = joined true (conjuncts.map matrix) := by
  change ((and conjuncts).conjuncts).map disjuncts = (conjuncts.map matrix).flatten
  rw [Formula.conjuncts, conjunctsAll_eq, List.map_flatMap, List.flatMap_def]
  rfl

theorem matrix_spread (parts : List Formula) :
    (spread [] parts).matrix = joined false (parts.map matrix) := by
  change (spread [] parts).conjuncts.map disjuncts = product (parts.map matrix)
  have options : parts.map matrix = (parts.map Formula.conjuncts).map (List.map disjuncts) := by
    rw [List.map_map]
    rfl
  rw [conjuncts_spread, product, options, ← map_choices, List.map_map, List.map_map]
  apply List.map_congr_left
  intro choice _
  simp only [Function.comp_apply, List.nil_append, disjuncts, disjunctsAll_eq, List.flatMap_def]

/-- A formula once its arrows are written out, as the first two passes do. -/
def opened (formula : Formula) : Formula :=
  (formula.mapNodes splitBicondition).mapNodes openCondition

theorem opened_and (conjuncts : List Formula) :
    (and conjuncts).opened = .and (conjuncts.map opened) := by
  unfold opened
  rw [mapNodes_and]
  exact (mapNodes_and openCondition _).trans (congrArg Formula.and List.map_map)

theorem opened_or (disjuncts : List Formula) :
    (or disjuncts).opened = .or (disjuncts.map opened) := by
  unfold opened
  rw [mapNodes_or]
  exact (mapNodes_or openCondition _).trans (congrArg Formula.or List.map_map)

theorem opened_condition (antecedent consequent : Formula) :
    (condition antecedent consequent).opened = .or [consequent.opened, .not antecedent.opened] :=
  rfl

theorem opened_bicondition (left right : Formula) :
    (bicondition left right).opened =
      .and [(condition left right).opened, (condition right left).opened] :=
  rfl

/-- The clauses which the next two passes make of a formula which is given a sign. -/
def spreadClauses (positive : Bool) (formula : Formula) : List (List Formula) :=
  ((formula.push positive).mapNodes distributeNode).matrix

theorem spreadClauses_not (positive : Bool) (body : Formula) :
    spreadClauses positive (.not body) = spreadClauses (!positive) body :=
  rfl

theorem matrix_conjunction (conjunctive : Bool) (parts : List Formula) :
    ((conjunction conjunctive parts).mapNodes distributeNode).matrix =
      joined conjunctive (parts.map fun part => (part.mapNodes distributeNode).matrix) := by
  cases conjunctive with
  | true =>
      change ((and parts).mapNodes distributeNode).matrix = _
      rw [mapNodes_and]
      exact (matrix_and _).trans (congrArg (joined true) List.map_map)
  | false =>
      change ((or parts).mapNodes distributeNode).matrix = _
      rw [mapNodes_or]
      exact (matrix_spread _).trans (congrArg (joined false) List.map_map)

theorem spreadClauses_and (positive : Bool) (conjuncts : List Formula) :
    spreadClauses positive (.and conjuncts) =
      joined positive (conjuncts.map (spreadClauses positive)) := by
  rw [spreadClauses, push, pushAll_eq, matrix_conjunction, List.map_map]
  rfl

theorem spreadClauses_or (positive : Bool) (disjuncts : List Formula) :
    spreadClauses positive (.or disjuncts) =
      joined (!positive) (disjuncts.map (spreadClauses positive)) := by
  rw [spreadClauses, push, pushAll_eq, matrix_conjunction, List.map_map]
  rfl

theorem spreadClauses_opened (formula : Formula) (positive : Bool) :
    spreadClauses positive formula.opened =
      (signedClauses positive formula).map (List.map Literal.toFormula) := by
  -- For both signs at once: each connective is taken apart the same way by the passes and by the
  -- one walk.
  induction formula generalizing positive with
  | atom name => cases positive <;> rfl
  | not body ih => exact ih (!positive)
  | and conjuncts ih =>
      rw [opened_and, spreadClauses_and, signedClauses, signedClausesAll_eq, map_joined,
        List.map_map, List.map_map]
      congr 1
      exact List.map_congr_left fun part member => ih part member positive
  | or disjuncts ih =>
      rw [opened_or, spreadClauses_or, signedClauses, signedClausesAll_eq, map_joined,
        List.map_map, List.map_map]
      congr 1
      exact List.map_congr_left fun part member => ih part member positive
  | condition antecedent consequent first second =>
      rw [opened_condition, spreadClauses_or, signedClauses, map_joined]
      simp only [List.map_cons, List.map_nil, spreadClauses_not, first, second]
  | bicondition left right first second =>
      rw [opened_bicondition, spreadClauses_and, signedClauses, map_joined]
      simp only [List.map_cons, List.map_nil, opened_condition, spreadClauses_or,
        spreadClauses_not, map_joined, first, second]

theorem distributed_eq_ok (formula last : Formula) (success : formula.distributed = .ok last) :
    last.matrix = (signedClauses true formula).map (List.map Literal.toFormula) := by
  rw [← spreadClauses_opened]
  simp only [distributed, bind_eq_ok] at success
  obtain ⟨first, biconditions, second, conditions, third, negations, distribution⟩ := success
  rw [eq_of_checked _ _ _ distribution, eq_of_checked _ _ _ negations,
    eq_of_checked _ _ _ conditions, eq_of_checked _ _ _ biconditions]
  rfl

end Formula

theorem Literal.toFormula_injective : Function.Injective Literal.toFormula := by
  intro literal other same
  obtain ⟨atom, negated⟩ := literal
  obtain ⟨atom', negated'⟩ := other
  cases negated <;> cases negated' <;> simp_all [toFormula]

theorem disjunctionOf_injective : Function.Injective disjunctionOf := by
  intro literals others same
  exact List.map_injective_iff.mpr Literal.toFormula_injective (Formula.or.inj same)

namespace Formula

/-- The clauses of a formula in reach of the passes, before repeats are merged. -/
theorem clauseSet_eq_ofList (formula : Formula) (set : ClauseSet)
    (success : formula.clauseSet = .ok set) :
    set = .ofList ((signedClauses true formula).map Clause.ofList) := by
  rw [clauseSet, bind_eq_ok] at success
  obtain ⟨last, distributed, collapsed⟩ := success
  rw [lift_eq_ok] at distributed
  rw [collapseToClauseSet, bind_eq_ok] at collapsed
  obtain ⟨_, _, read⟩ := collapsed
  obtain ⟨lists, _, written, same⟩ :=
    (ClauseSet.ofFormula_eq_ok _ set).mp ((lift_eq_ok _ _).mp read)
  have rows : lists.map disjunctionOf = (signedClauses true formula).map disjunctionOf := by
    calc
      lists.map disjunctionOf = last.matrix.map Formula.or := by
        rw [← Formula.and.inj written, matrix, List.map_map]
        rfl
      _ = (signedClauses true formula).map disjunctionOf := by
        rw [distributed_eq_ok formula last distributed, List.map_map]
        rfl
  rw [same, List.map_injective_iff.mpr disjunctionOf_injective rows]

/-- Whenever there is a normal form it is that of the clauses read off by sign, with
the same clauses in the same order and the same literals in the same order. -/
theorem normalForm_eq_signedClauses (formula normal : Formula)
    (success : formula.normalForm = .ok normal) :
    normal = (ClauseSet.ofList ((signedClauses true formula).map Clause.ofList)).toFormula := by
  rw [normalForm, bind_eq_ok] at success
  obtain ⟨set, read, done⟩ := success
  cases done
  rw [clauseSet_eq_ofList formula set read]

/-- Nine of the twelve clauses read off are tautologies. -/
theorem normalForm_eq_signedClauses_of_twelve :
    let formula : Formula :=
      .or [.not (.bicondition (.atom "p") (.and [.atom "q", .not (.atom "r")])),
        .and [.condition (.atom "q") (.atom "r"), .atom "p"]]
    let normal : Formula := .and [.or [.not (.atom "q"), .atom "r", .not (.atom "p")],
      .or [.atom "p", .atom "q"], .or [.atom "p", .not (.atom "r")]]
    (signedClauses true formula).length = 12 ∧ formula.normalForm = .ok normal ∧
      normal = (ClauseSet.ofList ((signedClauses true formula).map Clause.ofList)).toFormula := by
  intro formula normal
  have success : formula.normalForm = .ok normal := rfl
  exact ⟨rfl, success, normalForm_eq_signedClauses formula normal success⟩

end Formula
end Clausal
