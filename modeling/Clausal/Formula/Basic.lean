set_option autoImplicit false

/- Propositional formulas as values. Conjunctions and disjunctions take any
number of parts; the empty conjunction is true and the empty disjunction is
false, although only the former has a place in a formula which is brought to normal form. -/
namespace Clausal

/-- Connectives over named atoms. Nothing is refused at construction: an atom
without a name or a disjunction without parts is found when it is used. -/
inductive Formula where
  | atom (name : String)
  | not (body : Formula)
  | and (conjuncts : List Formula)
  | or (disjuncts : List Formula)
  | condition (antecedent consequent : Formula)
  | bicondition (left right : Formula)
  deriving Inhabited

namespace Formula

/-- Induction in which a junction may assume the motive of each of its parts. -/
@[elab_as_elim, induction_eliminator]
theorem induct {motive : Formula → Prop}
    (atom : ∀ name, motive (.atom name))
    (not : ∀ body, motive body → motive (.not body))
    (and : ∀ conjuncts, (∀ part ∈ conjuncts, motive part) → motive (.and conjuncts))
    (or : ∀ disjuncts, (∀ part ∈ disjuncts, motive part) → motive (.or disjuncts))
    (condition : ∀ antecedent consequent, motive antecedent → motive consequent →
      motive (.condition antecedent consequent))
    (bicondition : ∀ left right, motive left → motive right →
      motive (.bicondition left right))
    (formula : Formula) : motive formula :=
  @Formula.rec motive (fun parts => ∀ part ∈ parts, motive part)
    atom not and or condition bicondition
    (fun _ absent => absurd absent List.not_mem_nil)
    (fun _ _ first rest _ member =>
      (List.mem_cons.mp member).elim (fun same => same ▸ first) (rest _))
    formula

mutual

def same : Formula → Formula → Bool
  | .atom name, .atom name' => name == name'
  | .not body, .not body' => same body body'
  | .and conjuncts, .and conjuncts' => sameAll conjuncts conjuncts'
  | .or disjuncts, .or disjuncts' => sameAll disjuncts disjuncts'
  | .condition antecedent consequent, .condition antecedent' consequent' =>
      same antecedent antecedent' && same consequent consequent'
  | .bicondition left right, .bicondition left' right' => same left left' && same right right'
  | _, _ => false

def sameAll : List Formula → List Formula → Bool
  | [], [] => true
  | part :: rest, part' :: rest' => same part part' && sameAll rest rest'
  | _, _ => false

end

theorem sameAll_iff (parts others : List Formula)
    (each : ∀ part ∈ parts, ∀ other, same part other = true ↔ part = other) :
    sameAll parts others = true ↔ parts = others := by
  induction parts generalizing others with
  | nil => cases others <;> simp [sameAll]
  | cons part rest ih =>
      cases others with
      | nil => simp [sameAll]
      | cons other others =>
          simp [sameAll, each part List.mem_cons_self,
            ih others fun part member => each part (List.mem_cons_of_mem _ member)]

theorem same_iff (formula other : Formula) : same formula other = true ↔ formula = other := by
  induction formula generalizing other with
  | atom name => cases other <;> simp [same]
  | not body ih => cases other <;> simp [same, ih]
  | and conjuncts ih => cases other <;> simp [same, sameAll_iff _ _ ih]
  | or disjuncts ih => cases other <;> simp [same, sameAll_iff _ _ ih]
  | condition antecedent consequent first second => cases other <;> simp [same, first, second]
  | bicondition left right first second => cases other <;> simp [same, first, second]

instance : DecidableEq Formula := fun formula other =>
  decidable_of_iff _ (same_iff formula other)

/-- The name under which a node appears in a tree; an atom appears as itself. -/
def tag : Formula → String
  | .atom name => name
  | .not _ => "not"
  | .and _ => "and"
  | .or _ => "or"
  | .condition _ _ => "condition"
  | .bicondition _ _ => "bicondition"

def isAtom : Formula → Bool
  | .atom _ => true
  | _ => false

def isConjunction : Formula → Bool
  | .and _ => true
  | _ => false

/-- Atoms and negated atoms: a negation is pushed no further than here. -/
def isTerm : Formula → Bool
  | .atom _ => true
  | .not body => body.isAtom
  | _ => false

def parts : Formula → List Formula
  | .atom _ => []
  | .not body => [body]
  | .and conjuncts => conjuncts
  | .or disjuncts => disjuncts
  | .condition antecedent consequent => [antecedent, consequent]
  | .bicondition left right => [left, right]

/-- Induction in which a node may assume the motive of each of its parts. -/
@[elab_as_elim]
theorem inductParts {motive : Formula → Prop}
    (node : ∀ formula, (∀ part ∈ formula.parts, motive part) → motive formula)
    (formula : Formula) : motive formula := by
  induction formula with
  | atom name => exact node _ (by simp [parts])
  | not body ih => exact node _ (by simp [parts, ih])
  | and conjuncts ih => exact node _ ih
  | or disjuncts ih => exact node _ ih
  | condition antecedent consequent first second => exact node _ (by simp [parts, first, second])
  | bicondition left right first second => exact node _ (by simp [parts, first, second])

mutual

def size : Formula → Nat
  | .atom _ => 1
  | .not body => 1 + size body
  | .and conjuncts => 1 + sizeAll conjuncts
  | .or disjuncts => 1 + sizeAll disjuncts
  | .condition antecedent consequent => 1 + size antecedent + size consequent
  | .bicondition left right => 1 + size left + size right

def sizeAll : List Formula → Nat
  | [] => 0
  | part :: rest => size part + sizeAll rest

end

theorem sizeAll_append (parts others : List Formula) :
    sizeAll (parts ++ others) = sizeAll parts + sizeAll others := by
  induction parts with
  | nil => exact (Nat.zero_add _).symm
  | cons part rest ih => rw [List.cons_append, sizeAll, sizeAll, ih, Nat.add_assoc]

theorem size_le_sizeAll (parts : List Formula) (part : Formula) (member : part ∈ parts) :
    part.size ≤ sizeAll parts := by
  obtain ⟨before, after, rfl⟩ := List.append_of_mem member
  rw [sizeAll_append, sizeAll]
  omega

end Formula
end Clausal
