import Clausal.NormalForm.Pass
import Clausal.Proofs.ClauseSet.Index
import Clausal.Proofs.Formula.Atoms
import Clausal.Proofs.NormalForm.Reading

set_option autoImplicit false

namespace Clausal

theorem lift_eq_ok {α : Type} (outcome : Except Malformed α) (value : α) :
    (liftM outcome : Except Failure α) = .ok value ↔ outcome = .ok value := by
  cases outcome <;> simp

namespace Formula

/-- A formula which says what another says, of no more atoms. -/
structure Restates (changed formula : Formula) : Prop where
  value : ∀ valuation, changed.evaluate valuation = formula.evaluate valuation
  atoms : ∀ name ∈ changed.atoms, name ∈ formula.atoms

theorem Restates.refl (formula : Formula) : formula.Restates formula :=
  ⟨fun _ => rfl, fun _ member => member⟩

theorem Restates.trans {last changed formula : Formula} (second : last.Restates changed)
    (first : changed.Restates formula) : last.Restates formula where
  value valuation := (second.value valuation).trans (first.value valuation)
  atoms name member := first.atoms name (second.atoms name member)

theorem restates_mapNodes (rule : Formula → Formula) (keeps : ∀ node, (rule node).Restates node)
    (formula : Formula) : (formula.mapNodes rule).Restates formula where
  value valuation := evaluate_mapNodes rule valuation (fun node => (keeps node).value valuation) _
  atoms name := mem_atoms_of_mapNodes name rule (fun node => (keeps node).atoms name) formula

theorem restates_splitBicondition (node : Formula) : node.splitBicondition.Restates node where
  value valuation := evaluate_splitBicondition valuation node
  atoms name member := by
    cases node with
    | bicondition left right =>
        simp only [splitBicondition, mem_atoms_and, List.mem_cons, List.not_mem_nil, or_false,
          exists_eq_or_imp, exists_eq_left, mem_atoms_condition, mem_atoms_bicondition] at member ⊢
        exact member.elim id Or.symm
    | _ => exact member

theorem restates_openCondition (node : Formula) : node.openCondition.Restates node where
  value valuation := evaluate_openCondition valuation node
  atoms name member := by
    cases node with
    | condition antecedent consequent =>
        simp only [openCondition, mem_atoms_or, List.mem_cons, List.not_mem_nil, or_false,
          exists_eq_or_imp, exists_eq_left, mem_atoms_not, mem_atoms_condition] at member ⊢
        exact member.symm
    | _ => exact member

theorem mem_atoms_signed (name : String) (positive : Bool) (formula : Formula) :
    name ∈ (signed positive formula).atoms ↔ name ∈ formula.atoms := by
  cases positive <;> simp [signed]

theorem mem_atoms_conjunction (name : String) (positive : Bool) (parts : List Formula) :
    name ∈ (conjunction positive parts).atoms ↔ ∃ part ∈ parts, name ∈ part.atoms := by
  cases positive <;> simp [conjunction]

theorem mem_atoms_of_push (name : String) (formula : Formula) (positive : Bool)
    (member : name ∈ (formula.push positive).atoms) : name ∈ formula.atoms := by
  induction formula generalizing positive with
  | atom other =>
      rw [push, mem_atoms_signed] at member
      exact member
  | not body ih =>
      rw [mem_atoms_not]
      exact ih (!positive) member
  | and conjuncts ih =>
      rw [push, mem_atoms_conjunction, pushAll_eq] at member
      rw [mem_atoms_and]
      exact exists_mem_atoms_of_map name _ conjuncts (fun part inside => ih part inside positive)
        member
  | or disjuncts ih =>
      rw [push, mem_atoms_conjunction, pushAll_eq] at member
      rw [mem_atoms_or]
      exact exists_mem_atoms_of_map name _ disjuncts (fun part inside => ih part inside positive)
        member
  | condition antecedent consequent first second =>
      rw [push, mem_atoms_signed, mem_atoms_condition] at member
      rw [mem_atoms_condition]
      exact member.imp (first true) (second true)
  | bicondition left right first second =>
      rw [push, mem_atoms_signed, mem_atoms_bicondition] at member
      rw [mem_atoms_bicondition]
      exact member.imp (first true) (second true)

theorem restates_push (formula : Formula) : (formula.push true).Restates formula where
  value valuation := by
    rw [evaluate_push]
    exact beq_true _
  atoms name := mem_atoms_of_push name formula true

theorem mem_atoms_of_overConjuncts (name : String) (change : Formula → Formula) (added : Prop)
    (adds : ∀ leaf, name ∈ (change leaf).atoms → added ∨ name ∈ leaf.atoms) (formula : Formula)
    (member : name ∈ (formula.overConjuncts change).atoms) : added ∨ name ∈ formula.atoms := by
  induction formula with
  | and conjuncts ih =>
      rw [overConjuncts, overConjunctsAll_eq, mem_atoms_and] at member
      obtain ⟨changed, inside, named⟩ := member
      obtain ⟨part, origin, same⟩ := List.mem_map.mp inside
      rw [mem_atoms_and]
      exact (ih part origin (same ▸ named)).imp_right fun found => ⟨part, origin, found⟩
  | _ => exact adds _ member

theorem mem_atoms_of_spread (name : String) (chosen rest : List Formula)
    (member : name ∈ (spread chosen rest).atoms) : name ∈ (or (chosen ++ rest)).atoms := by
  induction rest generalizing chosen with
  | nil =>
      rw [List.append_nil]
      exact member
  | cons disjunct rest ih =>
      rw [spread] at member
      have split := mem_atoms_of_overConjuncts name _ (name ∈ (or (chosen ++ rest)).atoms)
        (fun leaf found => by
          have inside := ih (chosen ++ [leaf]) found
          simp only [mem_atoms_or, List.mem_append, List.mem_singleton] at inside ⊢
          grind) disjunct member
      simp only [mem_atoms_or, List.mem_append, List.mem_cons] at split ⊢
      grind

theorem restates_distributeNode (node : Formula) : node.distributeNode.Restates node where
  value valuation := evaluate_distributeNode valuation node
  atoms name member := by
    cases node with
    | or disjuncts => exact mem_atoms_of_spread name [] disjuncts member
    | _ => exact member

theorem mem_atoms_of_conjuncts (name : String) (formula : Formula)
    (found : ∃ conjunct ∈ formula.conjuncts, name ∈ conjunct.atoms) : name ∈ formula.atoms := by
  induction formula with
  | and parts ih =>
      rw [conjuncts, conjunctsAll_eq] at found
      obtain ⟨conjunct, member, named⟩ := found
      obtain ⟨part, origin, inside⟩ := List.mem_flatMap.mp member
      exact (mem_atoms_and _ _).mpr ⟨part, origin, ih part origin ⟨conjunct, inside, named⟩⟩
  | _ =>
      obtain ⟨conjunct, member, named⟩ := found
      exact List.mem_singleton.mp member ▸ named

theorem mem_atoms_of_disjuncts (name : String) (formula : Formula)
    (found : ∃ disjunct ∈ formula.disjuncts, name ∈ disjunct.atoms) : name ∈ formula.atoms := by
  induction formula with
  | or parts ih =>
      rw [disjuncts, disjunctsAll_eq] at found
      obtain ⟨disjunct, member, named⟩ := found
      obtain ⟨part, origin, inside⟩ := List.mem_flatMap.mp member
      exact (mem_atoms_or _ _).mpr ⟨part, origin, ih part origin ⟨disjunct, inside, named⟩⟩
  | _ =>
      obtain ⟨disjunct, member, named⟩ := found
      exact List.mem_singleton.mp member ▸ named

theorem restates_flattened (formula : Formula) : formula.flattened.Restates formula where
  value valuation := evaluate_flattened valuation formula
  atoms name member := by
    rw [flattened, mem_atoms_and] at member
    obtain ⟨clause, inside, named⟩ := member
    obtain ⟨conjunct, origin, same⟩ := List.mem_map.mp inside
    rw [← same, mem_atoms_or] at named
    exact mem_atoms_of_conjuncts name formula
      ⟨conjunct, origin, mem_atoms_of_disjuncts name conjunct named⟩

end Formula

theorem Literal.mem_atoms_toFormula (name : String) (literal : Literal) :
    name ∈ literal.toFormula.atoms ↔ name = literal.atom := by
  obtain ⟨atom, negated⟩ := literal
  cases negated <;> simp [toFormula]

theorem mem_atoms_disjunctionOf (name : String) (literals : List Literal) :
    name ∈ (disjunctionOf literals).atoms ↔ ∃ literal ∈ literals, name = literal.atom := by
  simp [disjunctionOf, Literal.mem_atoms_toFormula]

theorem evaluate_disjunctionOf (valuation : Valuation) (literals : List Literal) :
    (disjunctionOf literals).evaluate valuation = literals.any (Literal.evaluate valuation) := by
  simp [disjunctionOf, Function.comp_def]

theorem ClauseSet.restates_of_ofFormula (node : Formula) (set : ClauseSet)
    (read : ofFormula node = .ok set) : set.toFormula.Restates node := by
  obtain ⟨lists, _, written, same⟩ := (ofFormula_eq_ok node set).mp read
  constructor
  · intro valuation
    rw [evaluate_toFormula, same, evaluate_ofList, written]
    simp [evaluate_disjunctionOf, Function.comp_def]
  · intro name member
    rw [toFormula, Formula.mem_atoms_and] at member
    obtain ⟨part, inside, named⟩ := member
    obtain ⟨clause, origin, rfl⟩ := List.mem_map.mp inside
    obtain ⟨literal, found, rfl⟩ := (mem_atoms_disjunctionOf name clause.literals).mp named
    have offered := mem_of_mem_ofList (lists.map Clause.ofList) clause (same ▸ origin)
    obtain ⟨literals, listed, rfl⟩ := List.mem_map.mp offered
    rw [written, Formula.mem_atoms_and]
    refine ⟨disjunctionOf literals, List.mem_map_of_mem listed, ?_⟩
    exact (mem_atoms_disjunctionOf _ _).mpr ⟨literal, (Clause.mem_ofList _ _).mp found, rfl⟩

namespace Formula

theorem restates_of_collapseToClauseSet (formula : Formula) (set : ClauseSet)
    (collapsed : formula.collapseToClauseSet = .ok set) : set.toFormula.Restates formula := by
  rw [collapseToClauseSet, bind_eq_ok] at collapsed
  obtain ⟨_, _, read⟩ := collapsed
  rw [lift_eq_ok] at read
  exact (ClauseSet.restates_of_ofFormula _ set read).trans (restates_flattened formula)

/-- A pass which checks a formula and then changes it either fails or makes the change. -/
theorem eq_of_checked {ε : Type} (check : Except ε Unit) (result changed : Formula)
    (success : (do check; return result) = Except.ok changed) : changed = result := by
  rw [bind_eq_ok] at success
  obtain ⟨_, _, done⟩ := success
  cases done
  rfl

end Formula

namespace Pass

theorem restates_of_apply (formula changed : Formula) (pass : Pass)
    (success : apply formula pass = .ok changed) : changed.Restates formula := by
  cases pass with
  | biconditions =>
      have same := Formula.eq_of_checked _ _ _ ((lift_eq_ok _ _).mp success)
      rw [same]
      exact Formula.restates_mapNodes _ Formula.restates_splitBicondition formula
  | conditions =>
      have same := Formula.eq_of_checked _ _ _ ((lift_eq_ok _ _).mp success)
      rw [same]
      exact Formula.restates_mapNodes _ Formula.restates_openCondition formula
  | negations =>
      have same := Formula.eq_of_checked _ _ _ ((lift_eq_ok _ _).mp success)
      rw [same]
      exact Formula.restates_push formula
  | distribution =>
      have same := Formula.eq_of_checked _ _ _ ((lift_eq_ok _ _).mp success)
      rw [same]
      exact Formula.restates_mapNodes _ Formula.restates_distributeNode formula
  | collapse =>
      rw [apply, Formula.collapse, bind_eq_ok] at success
      obtain ⟨set, collapsed, done⟩ := success
      cases done
      exact Formula.restates_of_collapseToClauseSet formula set collapsed

/-- One pass after another. A pass which is refused leaves the formula as it is. -/
def tryAll (formula : Formula) : List Pass → Formula
  | [] => formula
  | pass :: rest =>
      match apply formula pass with
      | .ok changed => tryAll changed rest
      | .error _ => tryAll formula rest

theorem restates_tryAll (formula : Formula) (passes : List Pass) :
    (tryAll formula passes).Restates formula := by
  induction passes generalizing formula with
  | nil => exact .refl formula
  | cons pass rest ih =>
      rw [tryAll]
      split
      · rename_i changed success
        exact (ih changed).trans (restates_of_apply formula changed pass success)
      · exact ih formula

theorem restates_of_foldlM (formula last : Formula) (passes : List Pass)
    (success : passes.foldlM apply formula = .ok last) : last.Restates formula := by
  induction passes generalizing formula with
  | nil =>
      cases success
      exact .refl last
  | cons pass rest ih =>
      rw [List.foldlM_cons, bind_eq_ok] at success
      obtain ⟨changed, first, others⟩ := success
      exact (ih changed others).trans (restates_of_apply formula changed pass first)

/-- Whatever the formula, and whichever passes are made on it in whichever order. -/
theorem passes_preserve_truth (formula : Formula) :
    (∀ pass changed, apply formula pass = .ok changed → changed.Restates formula) ∧
      (∀ passes, (tryAll formula passes).Restates formula) ∧
      ∀ normal, formula.normalForm = .ok normal → normal.Restates formula := by
  refine ⟨fun pass changed => restates_of_apply formula changed pass, restates_tryAll formula, ?_⟩
  intro normal success
  rw [Formula.normalForm_eq_passes] at success
  exact restates_of_foldlM formula normal all success

/-- Made before the conditions are eliminated, the third pass leaves a negation in place. -/
theorem passes_preserve_truth_of_negated_condition :
    let formula : Formula :=
      .not (.condition (.not (.not (.atom "a"))) (.bicondition (.atom "a") (.atom "b")))
    let pushed : Formula := .not (.condition (.atom "a") (.bicondition (.atom "a") (.atom "b")))
    let normal : Formula := .and [.or [.not (.atom "b"), .not (.atom "a")],
      .or [.atom "a", .atom "b"], .or [.atom "a"]]
    apply formula .negations = .ok pushed ∧ pushed.Restates formula ∧
      formula.normalForm = .ok normal ∧ normal.Restates formula := by
  intro formula pushed normal
  have first : apply formula .negations = .ok pushed := rfl
  have last : formula.normalForm = .ok normal := rfl
  have preserved := passes_preserve_truth formula
  exact ⟨first, preserved.1 .negations pushed first, last, preserved.2.2 normal last⟩

end Pass
end Clausal
