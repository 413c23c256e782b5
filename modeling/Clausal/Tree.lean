import Clausal.Formula.Fault

set_option autoImplicit false

namespace Clausal

structure Tree where
  name : String
  children : List Tree
  deriving Inhabited

namespace Tree

/-- Induction in which a node may assume the motive of each of its children. -/
@[elab_as_elim, induction_eliminator]
theorem induct {motive : Tree → Prop}
    (mk : ∀ name children, (∀ child ∈ children, motive child) → motive ⟨name, children⟩)
    (tree : Tree) : motive tree :=
  @Tree.rec motive (fun children => ∀ child ∈ children, motive child) mk
    (fun _ absent => absurd absent List.not_mem_nil)
    (fun _ _ first rest _ member =>
      (List.mem_cons.mp member).elim (fun same => same ▸ first) (rest _))
    tree

mutual

def same : Tree → Tree → Bool
  | ⟨name, children⟩, ⟨name', children'⟩ => name == name' && sameAll children children'

def sameAll : List Tree → List Tree → Bool
  | [], [] => true
  | child :: rest, child' :: rest' => same child child' && sameAll rest rest'
  | _, _ => false

end

theorem sameAll_iff (children others : List Tree)
    (each : ∀ child ∈ children, ∀ other, same child other = true ↔ child = other) :
    sameAll children others = true ↔ children = others := by
  induction children generalizing others with
  | nil => cases others <;> simp [sameAll]
  | cons child rest ih =>
      cases others with
      | nil => simp [sameAll]
      | cons other others =>
          simp [sameAll, each child List.mem_cons_self,
            ih others fun child member => each child (List.mem_cons_of_mem _ member)]

theorem same_iff (tree other : Tree) : same tree other = true ↔ tree = other := by
  induction tree generalizing other with
  | mk name children ih => cases other; simp [same, sameAll_iff _ _ ih]

instance : DecidableEq Tree := fun tree other => decidable_of_iff _ (same_iff tree other)

/-- The count of children a name asks for. Every name which is not a tag is
that of an atom. -/
def arityOf : String → Arity
  | "not" => .exactly 1
  | "and" => .atLeast 0
  | "or" => .atLeast 1
  | "condition" => .exactly 2
  | "bicondition" => .exactly 2
  | _ => .exactly 0

def fault? (name : String) (found : Nat) : Option Malformed :=
  if name.isEmpty then some .unnamedAtom
  else if (arityOf name).allows found then none
  else some (.arity name (arityOf name) found)

/-- The formula of a node from those of its children, their count being right. -/
def connect : String → List Formula → Formula
  | "not", [body] => .not body
  | "and", conjuncts => .and conjuncts
  | "or", disjuncts => .or disjuncts
  | "condition", [antecedent, consequent] => .condition antecedent consequent
  | "bicondition", [left, right] => .bicondition left right
  | name, _ => .atom name

mutual

/-- A node is checked before its children and these from left to right. -/
def toFormula : Tree → Except Malformed Formula
  | ⟨name, children⟩ => do
      failWith (fault? name children.length)
      return connect name (← toFormulas children)

def toFormulas : List Tree → Except Malformed (List Formula)
  | [] => return []
  | child :: rest => return (← toFormula child) :: (← toFormulas rest)

end

mutual

def ofFormula : Formula → Tree
  | .atom name => ⟨name, []⟩
  | .not body => ⟨"not", [ofFormula body]⟩
  | .and conjuncts => ⟨"and", ofFormulas conjuncts⟩
  | .or disjuncts => ⟨"or", ofFormulas disjuncts⟩
  | .condition antecedent consequent =>
      ⟨"condition", [ofFormula antecedent, ofFormula consequent]⟩
  | .bicondition left right => ⟨"bicondition", [ofFormula left, ofFormula right]⟩

def ofFormulas : List Formula → List Tree
  | [] => []
  | part :: rest => ofFormula part :: ofFormulas rest

end

theorem ofFormulas_eq (parts : List Formula) : ofFormulas parts = parts.map ofFormula := by
  induction parts with
  | nil => rfl
  | cons part rest ih => rw [ofFormulas, List.map_cons, ih]

/-- A formula is written under its tag, its parts below it in order. -/
theorem ofFormula_eq (formula : Formula) :
    ofFormula formula = ⟨formula.tag, formula.parts.map ofFormula⟩ := by
  cases formula <;> simp [ofFormula, ofFormulas_eq, Formula.tag, Formula.parts]

end Tree
end Clausal
