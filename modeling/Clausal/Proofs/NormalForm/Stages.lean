import Clausal.Proofs.Formula.Throughout
import Clausal.Proofs.NormalForm.Direct

set_option autoImplicit false

namespace Clausal.Formula

/-- No atom is without a name and no disjunction without parts. -/
def Faultless (formula : Formula) : Prop :=
  ∀ node ∈ formula.subformulas, node.fault? = none

theorem faultless_iff (formula : Formula) :
    formula.Faultless ↔ formula.fault? = none ∧ ∀ part ∈ formula.parts, part.Faultless :=
  throughout_iff formula

@[simp] theorem faultless_atom (name : String) :
    (atom name).Faultless ↔ name.isEmpty = false := by
  rw [faultless_iff]
  simp [fault?, parts]

@[simp] theorem faultless_not (body : Formula) : (not body).Faultless ↔ body.Faultless := by
  rw [faultless_iff]
  simp [fault?, parts]

@[simp] theorem faultless_and (conjuncts : List Formula) :
    (and conjuncts).Faultless ↔ ∀ part ∈ conjuncts, part.Faultless := by
  rw [faultless_iff]
  simp [fault?, parts]

@[simp] theorem faultless_or (disjuncts : List Formula) :
    (or disjuncts).Faultless ↔ disjuncts ≠ [] ∧ ∀ part ∈ disjuncts, part.Faultless := by
  rw [faultless_iff]
  cases disjuncts <;> simp [fault?, parts]

@[simp] theorem faultless_condition (antecedent consequent : Formula) :
    (condition antecedent consequent).Faultless ↔
      antecedent.Faultless ∧ consequent.Faultless := by
  rw [faultless_iff]
  simp [fault?, parts]

@[simp] theorem faultless_bicondition (left right : Formula) :
    (bicondition left right).Faultless ↔ left.Faultless ∧ right.Faultless := by
  rw [faultless_iff]
  simp [fault?, parts]

theorem Faultless.mapNodes {rule : Formula → Formula}
    (keeps : ∀ node, node.Faultless → (rule node).Faultless) {formula : Formula}
    (faultless : formula.Faultless) : (formula.mapNodes rule).Faultless := by
  induction formula with
  | atom name => exact keeps _ faultless
  | not body ih =>
      rw [faultless_not] at faultless
      exact keeps _ ((faultless_not _).mpr (ih faultless))
  | and conjuncts ih =>
      rw [faultless_and] at faultless
      rw [mapNodes_and]
      apply keeps
      rw [faultless_and, List.forall_mem_map]
      exact fun part member => ih part member (faultless part member)
  | or disjuncts ih =>
      rw [faultless_or] at faultless
      rw [mapNodes_or]
      apply keeps
      rw [faultless_or, List.forall_mem_map, ne_eq, List.map_eq_nil_iff]
      exact ⟨faultless.1, fun part member => ih part member (faultless.2 part member)⟩
  | condition antecedent consequent first second =>
      rw [faultless_condition] at faultless
      exact keeps _ ((faultless_condition _ _).mpr ⟨first faultless.1, second faultless.2⟩)
  | bicondition left right first second =>
      rw [faultless_bicondition] at faultless
      exact keeps _ ((faultless_bicondition _ _).mpr ⟨first faultless.1, second faultless.2⟩)

theorem Faultless.splitBicondition {node : Formula} (faultless : node.Faultless) :
    node.splitBicondition.Faultless := by
  cases node with
  | bicondition left right => simp_all [Formula.splitBicondition]
  | _ => exact faultless

theorem Faultless.openCondition {node : Formula} (faultless : node.Faultless) :
    node.openCondition.Faultless := by
  cases node with
  | condition antecedent consequent => simp_all [Formula.openCondition]
  | _ => exact faultless

theorem Faultless.opened {formula : Formula} (faultless : formula.Faultless) :
    formula.opened.Faultless :=
  (faultless.mapNodes fun _ => Faultless.splitBicondition).mapNodes fun _ =>
    Faultless.openCondition

theorem Faultless.check {formula : Formula} (faultless : formula.Faultless) :
    formula.check = .ok () :=
  (check_eq_ok formula).mpr faultless

/-- Named literals under conjunctions and disjunctions, none of the latter empty. -/
inductive Pushed : Formula → Prop where
  | literal (literal : Literal) (named : literal.atom.isEmpty = false) :
      Pushed literal.toFormula
  | and (conjuncts : List Formula) (each : ∀ part ∈ conjuncts, Pushed part) :
      Pushed (.and conjuncts)
  | or (disjuncts : List Formula) (inhabited : disjuncts ≠ [])
      (each : ∀ part ∈ disjuncts, Pushed part) : Pushed (.or disjuncts)

/-- Named literals under disjunctions alone, none of them empty. -/
inductive Disjunctive : Formula → Prop where
  | literal (literal : Literal) (named : literal.atom.isEmpty = false) :
      Disjunctive literal.toFormula
  | or (disjuncts : List Formula) (inhabited : disjuncts ≠ [])
      (each : ∀ part ∈ disjuncts, Disjunctive part) : Disjunctive (.or disjuncts)

/-- Such disjunctions under conjunctions. -/
inductive Conjunctive : Formula → Prop where
  | disjunctive (formula : Formula) (clause : Disjunctive formula) : Conjunctive formula
  | and (conjuncts : List Formula) (each : ∀ part ∈ conjuncts, Conjunctive part) :
      Conjunctive (.and conjuncts)

theorem throughout_toFormula {property : Formula → Prop} (literal : Literal)
    (each : ∀ negated, property (Literal.toFormula ⟨literal.atom, negated⟩)) :
    literal.toFormula.Throughout property := by
  obtain ⟨name, negated⟩ := literal
  have own : (atom name).Throughout property := (throughout_iff _).mpr ⟨each false, nofun⟩
  cases negated with
  | false => exact own
  | true => exact (throughout_iff _).mpr ⟨each true, List.forall_mem_singleton.mpr own⟩

theorem Disjunctive.pushed {formula : Formula} (clause : formula.Disjunctive) :
    formula.Pushed := by
  induction clause with
  | literal literal named => exact .literal literal named
  | or disjuncts inhabited _ ih => exact .or disjuncts inhabited ih

theorem Conjunctive.pushed {formula : Formula} (conjunctive : formula.Conjunctive) :
    formula.Pushed := by
  induction conjunctive with
  | disjunctive formula clause => exact clause.pushed
  | and conjuncts _ ih => exact .and conjuncts ih

theorem Pushed.throughout {formula : Formula} (pushed : formula.Pushed) :
    formula.Throughout Pushed := by
  induction pushed with
  | literal literal named => exact throughout_toFormula literal fun _ => .literal _ named
  | and conjuncts each ih => exact (throughout_iff _).mpr ⟨.and conjuncts each, ih⟩
  | or disjuncts inhabited each ih =>
      exact (throughout_iff _).mpr ⟨.or disjuncts inhabited each, ih⟩

theorem Disjunctive.throughout {formula : Formula} (clause : formula.Disjunctive) :
    formula.Throughout Disjunctive := by
  induction clause with
  | literal literal named => exact throughout_toFormula literal fun _ => .literal _ named
  | or disjuncts inhabited each ih =>
      exact (throughout_iff _).mpr ⟨.or disjuncts inhabited each, ih⟩

theorem Conjunctive.throughout {formula : Formula} (conjunctive : formula.Conjunctive) :
    formula.Throughout Conjunctive := by
  induction conjunctive with
  | disjunctive formula clause => exact clause.throughout.imp fun _ => .disjunctive _
  | and conjuncts each ih => exact (throughout_iff _).mpr ⟨.and conjuncts each, ih⟩

theorem Pushed.faultless {formula : Formula} (pushed : formula.Pushed) : formula.Faultless := by
  intro node member
  cases pushed.throughout node member with
  | literal literal named =>
      obtain ⟨name, negated⟩ := literal
      cases negated with
      | false => exact if_neg (Bool.eq_false_iff.mp named)
      | true => rfl
  | and => rfl
  | or disjuncts inhabited =>
      cases disjuncts with
      | nil => exact absurd rfl inhabited
      | cons part rest => rfl

theorem Disjunctive.ne_and {formula : Formula} (clause : formula.Disjunctive)
    (conjuncts : List Formula) : formula ≠ .and conjuncts := by
  cases clause with
  | literal literal _ =>
      obtain ⟨name, negated⟩ := literal
      cases negated <;> exact nofun
  | or => exact nofun

theorem Conjunctive.disjunctive_of_or {disjuncts : List Formula}
    (conjunctive : (or disjuncts).Conjunctive) : ∀ part ∈ disjuncts, part.Disjunctive := by
  cases conjunctive with
  | disjunctive _ clause =>
      generalize whole : or disjuncts = node at clause
      cases clause with
      | literal literal _ =>
          obtain ⟨name, negated⟩ := literal
          cases negated <;> cases whole
      | or others _ each =>
          cases whole
          exact each

theorem Pushed.isAtom_of_not {body : Formula} (pushed : (not body).Pushed) :
    body.isAtom = true := by
  generalize whole : not body = node at pushed
  cases pushed with
  | literal literal _ =>
      obtain ⟨name, negated⟩ := literal
      cases negated <;> cases whole
      rfl
  | _ => cases whole

theorem overConjuncts_of_leaf (change : Formula → Formula) (leaf : Formula)
    (single : ∀ conjuncts, leaf ≠ .and conjuncts) : leaf.overConjuncts change = change leaf := by
  cases leaf with
  | and conjuncts => exact absurd rfl (single conjuncts)
  | _ => rfl

theorem conjuncts_of_leaf (leaf : Formula) (single : ∀ conjuncts, leaf ≠ .and conjuncts) :
    leaf.conjuncts = [leaf] := by
  cases leaf with
  | and conjuncts => exact absurd rfl (single conjuncts)
  | _ => rfl

theorem Conjunctive.overConjuncts {change : Formula → Formula}
    (makes : ∀ leaf : Formula, leaf.Disjunctive → (change leaf).Conjunctive) {formula : Formula}
    (conjunctive : formula.Conjunctive) : (formula.overConjuncts change).Conjunctive := by
  induction conjunctive with
  | disjunctive formula clause =>
      rw [overConjuncts_of_leaf change formula clause.ne_and]
      exact makes formula clause
  | and conjuncts _ ih =>
      rw [Formula.overConjuncts, overConjunctsAll_eq]
      exact .and _ (List.forall_mem_map.mpr ih)

theorem conjunctive_spread (chosen rest : List Formula) (inhabited : chosen ++ rest ≠ [])
    (clauses : ∀ part ∈ chosen, part.Disjunctive) (others : ∀ part ∈ rest, part.Conjunctive) :
    (spread chosen rest).Conjunctive := by
  induction rest generalizing chosen with
  | nil =>
      rw [List.append_nil] at inhabited
      exact .disjunctive _ (.or chosen inhabited clauses)
  | cons disjunct rest ih =>
      obtain ⟨first, later⟩ := List.forall_mem_cons.mp others
      rw [spread]
      apply first.overConjuncts
      intro leaf clause
      apply ih (chosen ++ [leaf]) (by simp) _ later
      rw [List.forall_mem_append, List.forall_mem_singleton]
      exact ⟨clauses, clause⟩

/-- Distribution leaves no conjunction below a disjunction. -/
theorem Pushed.distribute {formula : Formula} (pushed : formula.Pushed) :
    (formula.mapNodes distributeNode).Conjunctive := by
  induction pushed with
  | literal literal named =>
      have same : literal.toFormula.mapNodes distributeNode = literal.toFormula := by
        obtain ⟨name, negated⟩ := literal
        cases negated <;> rfl
      rw [same]
      exact .disjunctive _ (.literal literal named)
  | and conjuncts _ ih =>
      rw [mapNodes_and]
      exact .and _ (List.forall_mem_map.mpr ih)
  | or disjuncts inhabited _ ih =>
      rw [mapNodes_or]
      apply conjunctive_spread []
      · simpa using inhabited
      · exact nofun
      · exact List.forall_mem_map.mpr ih

theorem collapseFault?_of_disjunctive (formula : Formula) (clause : formula.Disjunctive)
    (above : Option Formula) :
    ∀ place ∈ formula.occurrences disjunctionBelow above, collapseFault? place = none := by
  induction clause generalizing above with
  | literal literal named =>
      obtain ⟨atom, negated⟩ := literal
      cases negated <;> simp_all [Literal.toFormula, occurrences, collapseFault?, fault?]
  | or disjuncts inhabited _ ih =>
      rw [occurrences_eq, List.forall_mem_cons, List.forall_mem_flatMap]
      constructor
      · cases disjuncts with
        | nil => exact absurd rfl inhabited
        | cons part rest => rfl
      · exact fun part member => ih part member _

theorem Conjunctive.checkCollapsible {formula : Formula} (conjunctive : formula.Conjunctive) :
    formula.checkCollapsible = .ok () := by
  rw [Formula.checkCollapsible, failWith_eq_ok, List.findSome?_eq_none_iff]
  induction conjunctive with
  | disjunctive formula clause => exact collapseFault?_of_disjunctive formula clause none
  | and conjuncts _ ih =>
      rw [occurrences_eq, List.forall_mem_cons, List.forall_mem_flatMap]
      exact ⟨rfl, ih⟩

/-- The literals of a formula with its negations at atoms, from left to right. -/
def literals (formula : Formula) : List Literal :=
  (formula.occurrences signBelow true).filterMap fun place =>
    place.2.name?.map fun name => ⟨name, !place.1⟩

theorem literals_toFormula (literal : Literal) : literal.toFormula.literals = [literal] := by
  obtain ⟨name, negated⟩ := literal
  cases negated <;> rfl

theorem literals_or (disjuncts : List Formula) :
    (or disjuncts).literals = disjuncts.flatMap literals := by
  rw [literals, occurrences_eq, List.filterMap_cons, List.filterMap_flatMap]
  rfl

theorem Disjunctive.disjuncts_eq {formula : Formula} (clause : formula.Disjunctive) :
    formula.disjuncts = formula.literals.map Literal.toFormula := by
  induction clause with
  | literal literal _ =>
      rw [literals_toFormula]
      obtain ⟨name, negated⟩ := literal
      cases negated <;> rfl
  | or disjuncts _ _ ih =>
      rw [Formula.disjuncts, disjunctsAll_eq, literals_or, List.map_flatMap]
      exact List.flatMap_congr ih

theorem Disjunctive.legible {formula : Formula} (clause : formula.Disjunctive) :
    Legible formula.literals := by
  induction clause with
  | literal literal named =>
      rw [literals_toFormula]
      exact ⟨List.cons_ne_nil literal [], List.forall_mem_singleton.mpr named⟩
  | or disjuncts inhabited _ ih =>
      rw [literals_or]
      obtain ⟨part, member⟩ := List.exists_mem_of_ne_nil disjuncts inhabited
      obtain ⟨literal, inside⟩ := List.exists_mem_of_ne_nil _ (ih part member).1
      refine ⟨List.ne_nil_of_mem (List.mem_flatMap.mpr ⟨part, member, inside⟩), ?_⟩
      rw [List.forall_mem_flatMap]
      exact fun part member => (ih part member).2

theorem Conjunctive.disjunctive_of_mem {formula : Formula} (conjunctive : formula.Conjunctive)
    (conjunct : Formula) (member : conjunct ∈ formula.conjuncts) : conjunct.Disjunctive := by
  induction conjunctive with
  | disjunctive formula clause =>
      rw [conjuncts_of_leaf formula clause.ne_and, List.mem_singleton] at member
      rw [member]
      exact clause
  | and conjuncts _ ih =>
      rw [Formula.conjuncts, conjunctsAll_eq, List.mem_flatMap] at member
      obtain ⟨part, origin, inside⟩ := member
      exact ih part origin inside

/-- The last pass makes a clause set of every formula of this shape. -/
theorem Conjunctive.collapse {formula : Formula} (conjunctive : formula.Conjunctive) :
    formula.collapseToClauseSet =
      .ok (.ofList (formula.conjuncts.map fun conjunct => .ofList conjunct.literals)) := by
  have clauses := conjunctive.disjunctive_of_mem
  have written : formula.flattened =
      .and ((formula.conjuncts.map literals).map disjunctionOf) := by
    rw [flattened, List.map_map]
    apply congrArg Formula.and
    exact List.map_congr_left fun conjunct member =>
      congrArg Formula.or (clauses conjunct member).disjuncts_eq
  have legible := List.forall_mem_map.mpr fun conjunct member => (clauses conjunct member).legible
  have read := (ClauseSet.ofFormula_eq_ok formula.flattened _).mpr
    ⟨formula.conjuncts.map literals, legible, written, rfl⟩
  rw [collapseToClauseSet, conjunctive.checkCollapsible, read, List.map_map]
  rfl

end Clausal.Formula
