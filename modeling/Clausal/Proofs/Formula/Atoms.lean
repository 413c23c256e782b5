import Clausal.Formula.MapNodes
import Clausal.Formula.Occurrences

set_option autoImplicit false

namespace Clausal.Formula

theorem mem_atoms_iff (name : String) (formula : Formula) :
    name ∈ formula.atoms ↔ formula = .atom name ∨ ∃ part ∈ formula.parts, name ∈ part.atoms := by
  simp only [mem_atoms]
  rw [subformulas_eq, List.mem_cons, List.mem_flatMap]
  exact or_congr_left eq_comm

@[simp] theorem mem_atoms_atom (name other : String) :
    name ∈ (atom other).atoms ↔ name = other := by
  rw [mem_atoms_iff]
  simp [parts, eq_comm]

@[simp] theorem mem_atoms_not (name : String) (body : Formula) :
    name ∈ (not body).atoms ↔ name ∈ body.atoms := by
  rw [mem_atoms_iff]
  simp [parts]

@[simp] theorem mem_atoms_and (name : String) (conjuncts : List Formula) :
    name ∈ (and conjuncts).atoms ↔ ∃ part ∈ conjuncts, name ∈ part.atoms := by
  rw [mem_atoms_iff]
  simp [parts]

@[simp] theorem mem_atoms_or (name : String) (disjuncts : List Formula) :
    name ∈ (or disjuncts).atoms ↔ ∃ part ∈ disjuncts, name ∈ part.atoms := by
  rw [mem_atoms_iff]
  simp [parts]

@[simp] theorem mem_atoms_condition (name : String) (antecedent consequent : Formula) :
    name ∈ (condition antecedent consequent).atoms ↔
      name ∈ antecedent.atoms ∨ name ∈ consequent.atoms := by
  rw [mem_atoms_iff]
  simp [parts]

@[simp] theorem mem_atoms_bicondition (name : String) (left right : Formula) :
    name ∈ (bicondition left right).atoms ↔ name ∈ left.atoms ∨ name ∈ right.atoms := by
  rw [mem_atoms_iff]
  simp [parts]

theorem exists_mem_atoms_of_map (name : String) (change : Formula → Formula)
    (parts : List Formula)
    (each : ∀ part ∈ parts, name ∈ (change part).atoms → name ∈ part.atoms)
    (found : ∃ part ∈ parts.map change, name ∈ part.atoms) :
    ∃ part ∈ parts, name ∈ part.atoms := by
  obtain ⟨changed, member, named⟩ := found
  obtain ⟨part, origin, same⟩ := List.mem_map.mp member
  exact ⟨part, origin, each part origin (same ▸ named)⟩

/-- A rule which brings no atom into any node brings none into a formula. -/
theorem mem_atoms_of_mapNodes (name : String) (rule : Formula → Formula)
    (keeps : ∀ node, name ∈ (rule node).atoms → name ∈ node.atoms) (formula : Formula)
    (found : name ∈ (formula.mapNodes rule).atoms) : name ∈ formula.atoms := by
  induction formula with
  | atom other => exact keeps _ found
  | not body ih =>
      have inside := keeps _ found
      rw [mem_atoms_not] at inside ⊢
      exact ih inside
  | and conjuncts ih =>
      rw [mapNodes_and] at found
      rw [mem_atoms_and]
      exact exists_mem_atoms_of_map name _ conjuncts ih ((mem_atoms_and _ _).mp (keeps _ found))
  | or disjuncts ih =>
      rw [mapNodes_or] at found
      rw [mem_atoms_or]
      exact exists_mem_atoms_of_map name _ disjuncts ih ((mem_atoms_or _ _).mp (keeps _ found))
  | condition antecedent consequent first second =>
      have inside := keeps _ found
      rw [mem_atoms_condition] at inside ⊢
      exact inside.imp first second
  | bicondition left right first second =>
      have inside := keeps _ found
      rw [mem_atoms_bicondition] at inside ⊢
      exact inside.imp first second

end Clausal.Formula
