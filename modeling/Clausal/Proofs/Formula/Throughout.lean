import Clausal.Formula.MapNodes
import Clausal.Formula.Occurrences

set_option autoImplicit false

namespace Clausal.Formula

/-- What holds of a formula and of each node below it, at any depth. -/
def Throughout (property : Formula → Prop) (formula : Formula) : Prop :=
  ∀ node ∈ formula.subformulas, property node

theorem map_eq_self (change : Formula → Formula) (parts : List Formula)
    (each : ∀ part ∈ parts, change part = part) : parts.map change = parts :=
  (List.map_congr_left each).trans (List.map_id' parts)

section

variable {property : Formula → Prop} {rule : Formula → Formula}

theorem throughout_iff (formula : Formula) :
    formula.Throughout property ↔
      property formula ∧ ∀ part ∈ formula.parts, part.Throughout property := by
  unfold Throughout
  rw [subformulas_eq, List.forall_mem_cons, List.forall_mem_flatMap]

theorem Throughout.imp {weaker : Formula → Prop} (weakens : ∀ node, property node → weaker node)
    {formula : Formula} (every : formula.Throughout property) : formula.Throughout weaker :=
  fun node member => weakens node (every node member)

theorem throughout_mapNodes
    (makes : ∀ node, (∀ part ∈ node.parts, part.Throughout property) →
      (rule node).Throughout property) (formula : Formula) :
    (formula.mapNodes rule).Throughout property := by
  induction formula with
  | atom name => exact makes _ nofun
  | not body ih => exact makes _ (List.forall_mem_singleton.mpr ih)
  | and conjuncts ih =>
      rw [mapNodes_and]
      exact makes _ (List.forall_mem_map.mpr ih)
  | or disjuncts ih =>
      rw [mapNodes_or]
      exact makes _ (List.forall_mem_map.mpr ih)
  | condition antecedent consequent first second =>
      apply makes
      simp [parts, first, second]
  | bicondition left right first second =>
      apply makes
      simp [parts, first, second]

theorem Throughout.mapNodes_eq (keeps : ∀ node, property node → rule node = node)
    {formula : Formula} (every : formula.Throughout property) :
    formula.mapNodes rule = formula := by
  induction formula with
  | atom name => exact keeps _ ((throughout_iff _).mp every).1
  | not body ih =>
      obtain ⟨own, below⟩ := (throughout_iff _).mp every
      rw [mapNodes, ih (below body (List.mem_singleton_self body)), keeps _ own]
  | and conjuncts ih =>
      obtain ⟨own, below⟩ := (throughout_iff _).mp every
      rw [mapNodes_and, map_eq_self _ conjuncts fun part member => ih part member
        (below part member), keeps _ own]
  | or disjuncts ih =>
      obtain ⟨own, below⟩ := (throughout_iff _).mp every
      rw [mapNodes_or, map_eq_self _ disjuncts fun part member => ih part member
        (below part member), keeps _ own]
  | condition antecedent consequent first second =>
      obtain ⟨own, below⟩ := (throughout_iff _).mp every
      rw [mapNodes, first (below _ (by simp [parts])), second (below _ (by simp [parts])),
        keeps _ own]
  | bicondition left right first second =>
      obtain ⟨own, below⟩ := (throughout_iff _).mp every
      rw [mapNodes, first (below _ (by simp [parts])), second (below _ (by simp [parts])),
        keeps _ own]

end

end Clausal.Formula
