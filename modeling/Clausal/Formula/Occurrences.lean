import Clausal.Formula.Basic
import Clausal.Ordered

set_option autoImplicit false

namespace Clausal.Formula

mutual

/-- Every node with the context it stands in. `descend` gives the context of the
parts of a node from the node and its own context. -/
def occurrences {γ : Type} (descend : γ → Formula → γ) : γ → Formula → List (γ × Formula)
  | here, .atom name => [(here, .atom name)]
  | here, .not body => (here, .not body) :: occurrences descend (descend here (.not body)) body
  | here, .and conjuncts =>
      (here, .and conjuncts) :: occurrencesAll descend (descend here (.and conjuncts)) conjuncts
  | here, .or disjuncts =>
      (here, .or disjuncts) :: occurrencesAll descend (descend here (.or disjuncts)) disjuncts
  | here, .condition antecedent consequent =>
      let below := descend here (.condition antecedent consequent)
      (here, .condition antecedent consequent) ::
        (occurrences descend below antecedent ++ occurrences descend below consequent)
  | here, .bicondition left right =>
      let below := descend here (.bicondition left right)
      (here, .bicondition left right) ::
        (occurrences descend below left ++ occurrences descend below right)

def occurrencesAll {γ : Type} (descend : γ → Formula → γ) :
    γ → List Formula → List (γ × Formula)
  | _, [] => []
  | here, part :: rest => occurrences descend here part ++ occurrencesAll descend here rest

end

theorem occurrencesAll_eq {γ : Type} (descend : γ → Formula → γ) (here : γ)
    (parts : List Formula) :
    occurrencesAll descend here parts = parts.flatMap (occurrences descend here) := by
  induction parts with
  | nil => rfl
  | cons part rest ih => simp [occurrencesAll, ih]

theorem occurrences_eq {γ : Type} (descend : γ → Formula → γ) (here : γ) (formula : Formula) :
    formula.occurrences descend here =
      (here, formula) :: formula.parts.flatMap (occurrences descend (descend here formula)) := by
  cases formula <;> simp [occurrences, occurrencesAll_eq, parts]

/-- Every node, the formula itself first. -/
def subformulas (formula : Formula) : List Formula :=
  (formula.occurrences (fun here _ => here) ()).map Prod.snd

theorem subformulas_eq (formula : Formula) :
    formula.subformulas = formula :: formula.parts.flatMap subformulas := by
  rw [subformulas, occurrences_eq]
  simp only [List.map_cons, List.map_flatMap]
  rfl

def name? : Formula → Option String
  | .atom name => some name
  | _ => none

def atoms (formula : Formula) : List String :=
  Ordered.distinct (formula.subformulas.filterMap name?)

theorem mem_atoms (name : String) (formula : Formula) :
    name ∈ formula.atoms ↔ .atom name ∈ formula.subformulas := by
  simp only [atoms, Ordered.mem_distinct, List.mem_filterMap]
  constructor
  · rintro ⟨part, member, named⟩
    cases part <;> simp_all [name?]
  · exact fun member => ⟨_, member, rfl⟩

end Clausal.Formula
