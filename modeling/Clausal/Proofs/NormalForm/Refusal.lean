import Clausal.Decision
import Clausal.Proofs.NormalForm.Stages

set_option autoImplicit false

namespace Clausal.Formula

/-- Where a node stands in a formula: plainly, or under a negation. Negations and the
antecedents of conditions reverse this; the sides of a bicondition stand both ways. -/
inductive Occurs (node : Formula) : Bool → Formula → Prop where
  | self : Occurs node true node
  | not (plain : Bool) (body : Formula) (inside : Occurs node plain body) :
      Occurs node (!plain) (.not body)
  | conjunct (plain : Bool) (conjuncts : List Formula) (part : Formula) (member : part ∈ conjuncts)
      (inside : Occurs node plain part) : Occurs node plain (.and conjuncts)
  | disjunct (plain : Bool) (disjuncts : List Formula) (part : Formula) (member : part ∈ disjuncts)
      (inside : Occurs node plain part) : Occurs node plain (.or disjuncts)
  | antecedent (plain : Bool) (antecedent consequent : Formula)
      (inside : Occurs node plain antecedent) :
      Occurs node (!plain) (.condition antecedent consequent)
  | consequent (plain : Bool) (antecedent consequent : Formula)
      (inside : Occurs node plain consequent) : Occurs node plain (.condition antecedent consequent)
  | left (plain either : Bool) (left right : Formula) (inside : Occurs node plain left) :
      Occurs node either (.bicondition left right)
  | right (plain either : Bool) (left right : Formula) (inside : Occurs node plain right) :
      Occurs node either (.bicondition left right)

theorem not_occurs_atom (plain : Bool) (name : String) : ¬ Occurs (.and []) plain (.atom name) :=
  nofun

theorem occurs_not_iff (plain : Bool) (body : Formula) :
    Occurs (.and []) plain (.not body) ↔ Occurs (.and []) (!plain) body := by
  constructor
  · intro occurs
    cases occurs with
    | not plain _ inside => rwa [Bool.not_not]
  · intro inside
    rw [← Bool.not_not plain]
    exact .not _ body inside

theorem occurs_and_iff (plain : Bool) (conjuncts : List Formula) :
    Occurs (.and []) plain (.and conjuncts) ↔
      (plain = true ∧ conjuncts = []) ∨ ∃ part ∈ conjuncts, Occurs (.and []) plain part := by
  constructor
  · intro occurs
    cases occurs with
    | self => exact Or.inl ⟨rfl, rfl⟩
    | conjunct _ _ part member inside => exact Or.inr ⟨part, member, inside⟩
  · rintro (⟨rfl, rfl⟩ | ⟨part, member, inside⟩)
    · exact .self
    · exact .conjunct _ _ part member inside

theorem occurs_or_iff (plain : Bool) (disjuncts : List Formula) :
    Occurs (.and []) plain (.or disjuncts) ↔
      ∃ part ∈ disjuncts, Occurs (.and []) plain part := by
  constructor
  · intro occurs
    cases occurs with
    | disjunct _ _ part member inside => exact ⟨part, member, inside⟩
  · intro ⟨part, member, inside⟩
    exact .disjunct _ _ part member inside

theorem occurs_condition_iff (plain : Bool) (antecedent consequent : Formula) :
    Occurs (.and []) plain (.condition antecedent consequent) ↔
      Occurs (.and []) (!plain) antecedent ∨ Occurs (.and []) plain consequent := by
  constructor
  · intro occurs
    cases occurs with
    | antecedent plain _ _ inside => exact Or.inl (by rwa [Bool.not_not])
    | consequent _ _ _ inside => exact Or.inr inside
  · rintro (inside | inside)
    · rw [← Bool.not_not plain]
      exact .antecedent _ _ _ inside
    · exact .consequent _ _ _ inside

theorem occurs_bicondition_iff (plain : Bool) (left right : Formula) :
    Occurs (.and []) plain (.bicondition left right) ↔
      (∃ either, Occurs (.and []) either left) ∨ ∃ either, Occurs (.and []) either right := by
  constructor
  · intro occurs
    cases occurs with
    | left either _ _ _ inside => exact Or.inl ⟨either, inside⟩
    | right either _ _ _ inside => exact Or.inr ⟨either, inside⟩
  · rintro (⟨either, inside⟩ | ⟨either, inside⟩)
    · exact .left either _ _ _ inside
    · exact .right either _ _ _ inside

theorem mem_occurrences_iff {γ : Type} (descend : γ → Formula → γ) (here there : γ)
    (formula node : Formula) :
    (there, node) ∈ formula.occurrences descend here ↔
      (there = here ∧ node = formula) ∨
        ∃ part ∈ formula.parts,
          (there, node) ∈ part.occurrences descend (descend here formula) := by
  rw [occurrences_eq, List.mem_cons, List.mem_flatMap, Prod.mk.injEq]

theorem mem_occurrences_not (sign positive : Bool) (body : Formula) :
    (sign, .and []) ∈ (not body).occurrences signBelow positive ↔
      (sign, .and []) ∈ body.occurrences signBelow (!positive) := by
  rw [mem_occurrences_iff]
  simp [parts, signBelow]

theorem mem_occurrences_and (sign positive : Bool) (conjuncts : List Formula) :
    (sign, .and []) ∈ (and conjuncts).occurrences signBelow positive ↔
      (sign = positive ∧ conjuncts = []) ∨
        ∃ part ∈ conjuncts, (sign, .and []) ∈ part.occurrences signBelow positive := by
  rw [mem_occurrences_iff]
  simp [parts, signBelow]

theorem mem_occurrences_or (sign positive : Bool) (disjuncts : List Formula) :
    (sign, .and []) ∈ (or disjuncts).occurrences signBelow positive ↔
      ∃ part ∈ disjuncts, (sign, .and []) ∈ part.occurrences signBelow positive := by
  rw [mem_occurrences_iff]
  simp [parts, signBelow]

/-- Once the arrows are written out, the sign a negation is pushed with is the polarity. -/
theorem mem_occurrences_opened_iff (formula : Formula) (sign positive : Bool) :
    (sign, .and []) ∈ formula.opened.occurrences signBelow positive ↔
      Occurs (.and []) (sign == positive) formula := by
  have flipped : ∀ positive, (!(sign == positive)) = (sign == !positive) := by decide +revert
  induction formula generalizing positive with
  | atom name =>
      rw [mem_occurrences_iff]
      simpa [opened, mapNodes, splitBicondition, openCondition, parts] using not_occurs_atom _ name
  | not body ih =>
      rw [occurs_not_iff, flipped]
      exact (mem_occurrences_not sign positive body.opened).trans (ih (!positive))
  | and conjuncts ih =>
      rw [opened_and, mem_occurrences_and, occurs_and_iff]
      simp only [List.mem_map, exists_exists_and_eq_and, List.map_eq_nil_iff, beq_iff_eq]
      exact or_congr_right (exists_congr fun part => and_congr_right fun member =>
        ih part member positive)
  | or disjuncts ih =>
      rw [opened_or, mem_occurrences_or, occurs_or_iff]
      simp only [List.mem_map, exists_exists_and_eq_and]
      exact exists_congr fun part => and_congr_right fun member => ih part member positive
  | condition antecedent consequent first second =>
      rw [opened_condition, occurs_condition_iff, flipped, mem_occurrences_or]
      simp [mem_occurrences_not, first, second, or_comm]
  | bicondition left right first second =>
      rw [opened_bicondition, occurs_bicondition_iff, mem_occurrences_and]
      simp only [opened_condition, mem_occurrences_or, mem_occurrences_not, List.mem_cons,
        List.not_mem_nil, or_false, exists_eq_or_imp, exists_eq_left, first, second, ← flipped]
      -- Each side occurs once as a consequent and once as an antecedent, so with both signs.
      cases (sign == positive) <;> simp <;> grind

theorem map_snd_occurrences {γ : Type} (descend : γ → Formula → γ) (here : γ)
    (formula : Formula) :
    (formula.occurrences descend here).map Prod.snd = formula.subformulas := by
  induction formula using inductParts generalizing here with
  | node formula ih =>
      rw [occurrences_eq, subformulas_eq, List.map_cons, List.map_flatMap]
      exact congrArg (formula :: ·) (List.flatMap_congr fun part member => ih part member _)

theorem pushFault?_of_faultless (place : Bool × Formula) (faultless : place.2.fault? = none) :
    pushFault? place = if place = (false, .and []) then some .emptyDisjunction else none := by
  obtain ⟨sign, node⟩ := place
  unfold pushFault?
  split <;> simp_all

/-- All the third pass can find at fault in a faultless formula is an empty conjunction. -/
theorem pushNegations_of_faultless (formula : Formula) (faultless : formula.Faultless) :
    formula.pushNegations =
      if (false, .and []) ∈ formula.occurrences signBelow true then .error .emptyDisjunction
      else .ok (formula.push true) := by
  unfold pushNegations
  cases search : (formula.occurrences signBelow true).findSome? pushFault? with
  | none =>
      rw [List.findSome?_eq_none_iff] at search
      have absent : (false, .and []) ∉ formula.occurrences signBelow true := by
        intro member
        have nothing := search _ member
        cases nothing
      rw [if_neg absent]
      rfl
  | some cause =>
      obtain ⟨place, member, fault⟩ := List.exists_of_findSome?_eq_some search
      have node := List.mem_map_of_mem (f := Prod.snd) member
      rw [map_snd_occurrences] at node
      rw [pushFault?_of_faultless place (faultless place.2 node)] at fault
      split at fault
      · rename_i same
        cases fault
        rw [if_pos (same ▸ member)]
        rfl
      · cases fault

theorem pushed_conjunction (positive : Bool) (parts : List Formula)
    (inhabited : positive = false → parts ≠ []) (each : ∀ part ∈ parts, part.Pushed) :
    (conjunction positive parts).Pushed := by
  cases positive with
  | true => exact .and parts each
  | false => exact .or parts (inhabited rfl) each

/-- Every formula the third pass accepts comes out of it with its negations at atoms. -/
theorem pushed_opened (formula : Formula) (sign : Bool) (faultless : formula.Faultless)
    (absent : ¬ Occurs (.and []) (!sign) formula) : (formula.opened.push sign).Pushed := by
  induction formula generalizing sign with
  | atom name =>
      rw [faultless_atom] at faultless
      have literal : (signed sign (.atom name)) = Literal.toFormula ⟨name, !sign⟩ := by
        cases sign <;> rfl
      change (signed sign (.atom name)).Pushed
      rw [literal]
      exact .literal _ faultless
  | not body ih =>
      rw [faultless_not] at faultless
      rw [occurs_not_iff] at absent
      exact ih (!sign) faultless absent
  | and conjuncts ih =>
      rw [faultless_and] at faultless
      rw [occurs_and_iff, not_or, not_exists] at absent
      rw [opened_and, push, pushAll_eq]
      apply pushed_conjunction
      · intro negative
        simpa [negative] using absent.1
      · simp only [List.forall_mem_map]
        exact fun part member => ih part member sign (faultless part member) fun inside =>
          absent.2 part ⟨member, inside⟩
  | or disjuncts ih =>
      rw [faultless_or] at faultless
      rw [occurs_or_iff, not_exists] at absent
      rw [opened_or, push, pushAll_eq]
      apply pushed_conjunction
      · intro _
        simpa using faultless.1
      · simp only [List.forall_mem_map]
        exact fun part member => ih part member sign (faultless.2 part member) fun inside =>
          absent part ⟨member, inside⟩
  | condition antecedent consequent first second =>
      rw [faultless_condition] at faultless
      rw [occurs_condition_iff, not_or] at absent
      apply pushed_conjunction (!sign) [_, _] (fun _ => by simp)
      simp only [List.forall_mem_cons, List.not_mem_nil, false_implies, implies_true, and_true]
      exact ⟨second sign faultless.2 absent.2, first (!sign) faultless.1 absent.1⟩
  | bicondition left right first second =>
      rw [faultless_bicondition] at faultless
      rw [occurs_bicondition_iff, not_or, not_exists, not_exists] at absent
      have before := fun sign => first sign faultless.1 (absent.1 _)
      have after := fun sign => second sign faultless.2 (absent.2 _)
      have disjunction : ∀ one other : Formula, one.Pushed → other.Pushed →
          (conjunction (!sign) [one, other]).Pushed := by
        intro one other first second
        apply pushed_conjunction (!sign) [one, other] (fun _ => by simp)
        simp [first, second]
      apply pushed_conjunction sign [_, _] (fun _ => by simp)
      simp only [List.forall_mem_cons, List.not_mem_nil, false_implies, implies_true, and_true]
      exact ⟨disjunction _ _ (after sign) (before (!sign)),
        disjunction _ _ (before sign) (after (!sign))⟩

theorem clauseSet_of_check (formula : Formula) (cause : Malformed)
    (refused : formula.check = .error cause) : formula.clauseSet = .error (.malformed cause) := by
  rw [clauseSet, distributed, eliminateBiconditions, refused]
  rfl

/-- The first two passes accept every formula without faults. -/
theorem distributed_of_faultless (formula : Formula) (faultless : formula.Faultless) :
    formula.distributed = (do (← formula.opened.pushNegations).distribute) := by
  have biconditions : formula.eliminateBiconditions = .ok (formula.mapNodes splitBicondition) := by
    rw [eliminateBiconditions, faultless.check]
    rfl
  have conditions : (formula.mapNodes splitBicondition).eliminateConditions =
      .ok formula.opened := by
    rw [eliminateConditions, (faultless.mapNodes fun _ => Faultless.splitBicondition).check]
    rfl
  rw [distributed, biconditions, ok_bind, conditions, ok_bind]

theorem clauseSet_of_occurs (formula : Formula) (faultless : formula.Faultless)
    (occurs : Occurs (.and []) false formula) :
    formula.clauseSet = .error (.malformed .emptyDisjunction) := by
  have place := (mem_occurrences_opened_iff formula false true).mpr occurs
  have refused : formula.opened.pushNegations = .error .emptyDisjunction := by
    rw [pushNegations_of_faultless _ faultless.opened, if_pos place]
  rw [clauseSet, distributed_of_faultless formula faultless, refused]
  rfl

theorem exists_clauseSet (formula : Formula) (faultless : formula.Faultless)
    (absent : ¬ Occurs (.and []) false formula) : ∃ set, formula.clauseSet = .ok set := by
  have nowhere : (false, .and []) ∉ formula.opened.occurrences signBelow true :=
    fun place => absent ((mem_occurrences_opened_iff formula false true).mp place)
  have negations : formula.opened.pushNegations = .ok (formula.opened.push true) := by
    rw [pushNegations_of_faultless _ faultless.opened, if_neg nowhere]
  have pushed := pushed_opened formula true faultless absent
  refine ⟨_, Eq.trans ?_ pushed.distribute.collapse⟩
  rw [clauseSet, distributed_of_faultless formula faultless, negations, ok_bind, Formula.distribute,
    pushed.faultless.check]
  rfl

theorem fault?_eq_some (node : Formula) (cause : Malformed) :
    node.fault? = some cause ↔
      (node = .atom "" ∧ cause = .unnamedAtom) ∨ (node = .or [] ∧ cause = .emptyDisjunction) := by
  cases node with
  | atom name =>
      by_cases unnamed : name = "" <;> simp [fault?, unnamed, eq_comm (b := cause)]
  | or disjuncts => cases disjuncts <;> simp [fault?, eq_comm (b := cause)]
  | _ => simp [fault?]

theorem fault?_eq_none_iff (node : Formula) :
    node.fault? = none ↔ node ≠ .atom "" ∧ node ≠ .or [] := by
  constructor
  · intro sound
    constructor
    · rintro rfl
      simp [fault?] at sound
    · rintro rfl
      cases sound
  · rintro ⟨named, inhabited⟩
    cases fault : node.fault? with
    | none => rfl
    | some cause =>
        rcases (fault?_eq_some node cause).mp fault with ⟨unnamed, _⟩ | ⟨empty, _⟩
        · exact absurd unnamed named
        · exact absurd empty inhabited

theorem faultless_iff_not_mem (formula : Formula) :
    formula.Faultless ↔ .atom "" ∉ formula.subformulas ∧ .or [] ∉ formula.subformulas := by
  simp only [Faultless, fault?_eq_none_iff]
  constructor
  · exact fun every => ⟨fun member => (every _ member).1 rfl, fun member => (every _ member).2 rfl⟩
  · rintro ⟨named, inhabited⟩ node member
    exact ⟨fun unnamed => named (unnamed ▸ member), fun empty => inhabited (empty ▸ member)⟩

/-- The first faulty node, a node coming before its parts, is the one which is refused. -/
theorem check_of_first (formula node : Formula) (before after : List Formula) (cause : Malformed)
    (order : formula.subformulas = before ++ node :: after)
    (earlier : ∀ other ∈ before, other ≠ .atom "" ∧ other ≠ .or [])
    (fault : node.fault? = some cause) : formula.check = .error cause := by
  have nothing : before.findSome? fault? = none := by
    rw [List.findSome?_eq_none_iff]
    exact fun other member => (fault?_eq_none_iff other).mpr (earlier other member)
  rw [check, order, List.findSome?_append, nothing, List.findSome?_cons, fault]
  rfl

theorem exists_fault_of_check (formula : Formula) (cause : Malformed)
    (refused : formula.check = .error cause) :
    ∃ node ∈ formula.subformulas, node.fault? = some cause := by
  rw [check] at refused
  cases search : formula.subformulas.findSome? fault? with
  | none =>
      rw [search] at refused
      cases refused
  | some first =>
      rw [search] at refused
      cases refused
      exact List.exists_of_findSome?_eq_some search

theorem normalForm_of_clauseSet (formula : Formula) (failure : Failure) :
    formula.normalForm = .error failure ↔ formula.clauseSet = .error failure := by
  rw [normalForm]
  cases formula.clauseSet with
  | error cause => simp
  | ok set => simp

theorem clauseSet_failure (formula : Formula) (failure : Failure)
    (failed : formula.clauseSet = .error failure) :
    failure = .malformed .unnamedAtom ∨ failure = .malformed .emptyDisjunction := by
  cases check : formula.check with
  | error cause =>
      rw [clauseSet_of_check formula cause check] at failed
      cases failed
      obtain ⟨node, _, fault⟩ := exists_fault_of_check formula cause check
      rcases (fault?_eq_some node cause).mp fault with ⟨_, rfl⟩ | ⟨_, rfl⟩
      · exact Or.inl rfl
      · exact Or.inr rfl
  | ok _ =>
      have faultless := (check_eq_ok formula).mp check
      by_cases occurs : Occurs (.and []) false formula
      · rw [clauseSet_of_occurs formula faultless occurs] at failed
        cases failed
        exact Or.inr rfl
      · obtain ⟨set, success⟩ := exists_clauseSet formula faultless occurs
        rw [success] at failed
        cases failed

theorem satisfiable_failure (config : Config) (environment : Environment) (formula : Formula)
    (failure : Failure) (failed : formula.satisfiable config environment = .error failure) :
    formula.clauseSet = .error failure ∨ ∃ budget, failure = .exhausted budget := by
  rw [satisfiable] at failed
  cases outcome : formula.clauseSet with
  | error cause =>
      rw [outcome] at failed
      cases failed
      exact Or.inl rfl
  | ok set =>
      rw [outcome, ok_bind] at failed
      cases verdict : ((Engine.start config set).refute environment).verdict with
      | error budget =>
          rw [verdict] at failed
          cases failed
          exact Or.inr ⟨budget, rfl⟩
      | ok refuted =>
          rw [verdict] at failed
          cases failed

/-- Normal form is refused to a formula with a fault, for the first one, and to one
without in which an empty conjunction stands under a negation; to no other. A pass never
comes upon what the passes before it should have removed. -/
theorem normalForm_refused (formula : Formula) :
    (∀ before node after, formula.subformulas = before ++ node :: after →
        (∀ earlier ∈ before, earlier ≠ .atom "" ∧ earlier ≠ .or []) →
          (node = .atom "" → formula.normalForm = .error (.malformed .unnamedAtom)) ∧
            (node = .or [] → formula.normalForm = .error (.malformed .emptyDisjunction))) ∧
      (.atom "" ∉ formula.subformulas → .or [] ∉ formula.subformulas →
        (Occurs (.and []) false formula →
            formula.normalForm = .error (.malformed .emptyDisjunction)) ∧
          (¬ Occurs (.and []) false formula → ∃ normal, formula.normalForm = .ok normal)) ∧
        (∀ failure, formula.normalForm = .error failure →
          failure = .malformed .unnamedAtom ∨ failure = .malformed .emptyDisjunction) ∧
          ∀ config environment failure, formula.satisfiable config environment = .error failure →
            failure = .malformed .unnamedAtom ∨ failure = .malformed .emptyDisjunction ∨
              ∃ budget, failure = .exhausted budget := by
  refine ⟨?first, ?faultless, ?normalForm, ?satisfiable⟩
  case first =>
    intro before node after order earlier
    have refused : ∀ cause, node.fault? = some cause →
        formula.normalForm = .error (.malformed cause) := by
      intro cause fault
      rw [normalForm_of_clauseSet]
      apply clauseSet_of_check
      exact check_of_first formula node before after cause order earlier fault
    constructor
    · exact fun unnamed => refused _ ((fault?_eq_some node _).mpr (Or.inl ⟨unnamed, rfl⟩))
    · exact fun empty => refused _ ((fault?_eq_some node _).mpr (Or.inr ⟨empty, rfl⟩))
  case faultless =>
    intro named inhabited
    have faultless := (faultless_iff_not_mem formula).mpr ⟨named, inhabited⟩
    constructor
    · rw [normalForm_of_clauseSet]
      exact clauseSet_of_occurs formula faultless
    · intro absent
      obtain ⟨set, success⟩ := exists_clauseSet formula faultless absent
      refine ⟨set.toFormula, ?_⟩
      rw [normalForm, success]
      rfl
  case normalForm =>
    intro failure failed
    exact clauseSet_failure formula failure ((normalForm_of_clauseSet formula failure).mp failed)
  case satisfiable =>
    intro config environment failure failed
    rcases satisfiable_failure config environment formula failure failed with refused | limit
    · exact (clauseSet_failure formula failure refused).imp_right Or.inl
    · exact Or.inr (Or.inr limit)

/-- Either side of a bicondition stands both ways. The second formula has an empty
disjunction before an atom without a name; in the third two negations cancel. -/
theorem normalForm_refused_three :
    let both : Formula := .and [.or [.atom "a"], .bicondition (.atom "b") (.and [])]
    let faulty : Formula := .condition (.not (.or [])) (.and [.atom "a", .atom ""])
    let plain : Formula := .condition (.not (.and [])) (.atom "a")
    Occurs (.and []) false both ∧ both.normalForm = .error (.malformed .emptyDisjunction) ∧
      faulty.normalForm = .error (.malformed .emptyDisjunction) ∧
        ¬ Occurs (.and []) false plain ∧ ∃ normal, plain.normalForm = .ok normal := by
  intro both faulty plain
  have occurs : Occurs (.and []) false both :=
    .conjunct false _ (.bicondition (.atom "b") (.and [])) (by simp) (.right true false _ _ .self)
  have absent : ¬ Occurs (.and []) false plain := by
    simp [plain, occurs_condition_iff, occurs_not_iff, occurs_and_iff, not_occurs_atom]
  have refused := ((normalForm_refused both).2.1 (by decide) (by decide)).1 occurs
  have first := (normalForm_refused faulty).1 [faulty, .not (.or [])] (.or [])
    [.and [.atom "a", .atom ""], .atom "a", .atom ""] rfl (by decide)
  have made := ((normalForm_refused plain).2.1 (by decide) (by decide)).2 absent
  exact ⟨occurs, refused, first.2 rfl, absent, made⟩

end Clausal.Formula
