import Clausal.Tree
import Mathlib.Data.List.Basic

set_option autoImplicit false

namespace Clausal

namespace Tree

def tags : List String :=
  ["not", "and", "or", "condition", "bicondition"]

/-- The nodes of the grammar, by name and count of children. -/
inductive Fits : String → Nat → Prop where
  | not : Fits "not" 1
  | and (count : Nat) : Fits "and" count
  | or (count : Nat) (inhabited : 0 < count) : Fits "or" count
  | condition : Fits "condition" 2
  | bicondition : Fits "bicondition" 2
  | atom (name : String) (named : name ≠ "") (free : name ∉ tags) : Fits name 0

/-- Every node of the tree is one of the grammar. -/
inductive Grammatical : Tree → Prop where
  | node (name : String) (children : List Tree) (fits : Fits name children.length)
      (below : ∀ child ∈ children, Grammatical child) : Grammatical ⟨name, children⟩

theorem arityOf_of_free (name : String) (free : name ∉ tags) : arityOf name = .exactly 0 := by
  unfold arityOf
  split <;> simp_all [tags]

theorem connect_of_free (name : String) (free : name ∉ tags) : connect name [] = .atom name := by
  unfold connect
  split <;> simp_all [tags]

theorem fault?_eq_none_iff (name : String) (found : Nat) :
    fault? name found = none ↔ Fits name found := by
  have unfaulted : fault? name found = none ↔
      name ≠ "" ∧ (arityOf name).allows found = true := by
    unfold fault?
    split <;> simp_all
  rw [unfaulted]
  constructor
  · intro ⟨named, allowed⟩
    by_cases tagged : name ∈ tags
    · simp only [tags, List.mem_cons, List.not_mem_nil, or_false] at tagged
      rcases tagged with rfl | rfl | rfl | rfl | rfl <;>
        simp only [arityOf, Arity.allows, beq_iff_eq, decide_eq_true_eq] at allowed
      · exact allowed ▸ .not
      · exact .and found
      · exact .or found allowed
      · exact allowed ▸ .condition
      · exact allowed ▸ .bicondition
    · rw [arityOf_of_free name tagged, Arity.allows, beq_iff_eq] at allowed
      exact allowed ▸ .atom name named tagged
  · intro fits
    cases fits with
    | atom _ named free => exact ⟨named, by rw [arityOf_of_free name free]; rfl⟩
    | or _ inhabited => exact ⟨by decide, decide_eq_true inhabited⟩
    | _ => exact ⟨by decide, by simp [arityOf, Arity.allows]⟩

end Tree

namespace Formula

/-- The grammar has a node for it which it has for nothing else: it is no disjunction
without parts, and no atom without a name or under the name of a connective. -/
def HasNode (node : Formula) : Prop :=
  node ≠ .or [] ∧ ∀ name, node = .atom name → name ≠ "" ∧ name ∉ Tree.tags

def Expressible (formula : Formula) : Prop :=
  ∀ node ∈ formula.subformulas, node.HasNode

theorem expressible_iff (formula : Formula) :
    formula.Expressible ↔ formula.HasNode ∧ ∀ part ∈ formula.parts, part.Expressible := by
  rw [Expressible, subformulas_eq, List.forall_mem_cons, List.forall_mem_flatMap]
  rfl

theorem HasNode.connect_eq {node : Formula} (own : node.HasNode) :
    Tree.Fits node.tag node.parts.length ∧ Tree.connect node.tag node.parts = node := by
  cases node with
  | atom name =>
      obtain ⟨named, free⟩ := own.2 name rfl
      exact ⟨.atom name named free, Tree.connect_of_free name free⟩
  | not body => exact ⟨.not, rfl⟩
  | and conjuncts => exact ⟨.and _, rfl⟩
  | or disjuncts =>
      have inhabited : disjuncts ≠ [] := fun empty => own.1 (congrArg Formula.or empty)
      exact ⟨.or _ (List.length_pos_iff.mpr inhabited), rfl⟩
  | condition antecedent consequent => exact ⟨.condition, rfl⟩
  | bicondition left right => exact ⟨.bicondition, rfl⟩

end Formula

namespace Tree

theorem Fits.connect {name : String} {parts : List Formula} (fits : Fits name parts.length) :
    (Tree.connect name parts).HasNode ∧ (Tree.connect name parts).tag = name ∧
      (Tree.connect name parts).parts = parts := by
  generalize count : parts.length = found at fits
  cases fits with
  | not =>
      obtain ⟨body, rfl⟩ := List.length_eq_one_iff.mp count
      exact ⟨⟨nofun, nofun⟩, rfl, rfl⟩
  | and => exact ⟨⟨nofun, nofun⟩, rfl, rfl⟩
  | or _ inhabited =>
      refine ⟨⟨?_, nofun⟩, rfl, rfl⟩
      intro empty
      rw [← count, Formula.or.inj empty] at inhabited
      exact absurd inhabited (Nat.lt_irrefl 0)
  | condition =>
      obtain ⟨antecedent, consequent, rfl⟩ := List.length_eq_two.mp count
      exact ⟨⟨nofun, nofun⟩, rfl, rfl⟩
  | bicondition =>
      obtain ⟨left, right, rfl⟩ := List.length_eq_two.mp count
      exact ⟨⟨nofun, nofun⟩, rfl, rfl⟩
  | atom _ named free =>
      obtain rfl := List.length_eq_zero_iff.mp count
      rw [connect_of_free name free]
      refine ⟨⟨nofun, ?_⟩, rfl, rfl⟩
      rintro _ ⟨rfl⟩
      exact ⟨named, free⟩

theorem Fits.ofFormula_connect {name : String} {parts : List Formula}
    (fits : Fits name parts.length) (each : ∀ part ∈ parts, part.Expressible) :
    (Tree.connect name parts).Expressible ∧
      ofFormula (Tree.connect name parts) = ⟨name, parts.map ofFormula⟩ := by
  obtain ⟨own, tagged, below⟩ := fits.connect
  rw [Formula.expressible_iff, ofFormula_eq, tagged, below]
  exact ⟨⟨own, each⟩, rfl⟩

theorem toFormulas_eq_ok_iff (children : List Tree) (parts : List Formula)
    (each : ∀ child ∈ children, ∀ part,
      child.toFormula = .ok part ↔ part.Expressible ∧ ofFormula part = child) :
    toFormulas children = .ok parts ↔
      (∀ part ∈ parts, part.Expressible) ∧ parts.map ofFormula = children := by
  induction children generalizing parts with
  | nil =>
      rw [toFormulas, List.map_eq_nil_iff]
      constructor
      · intro done
        cases done
        simp
      · rintro ⟨_, rfl⟩
        rfl
  | cons child rest ih =>
      obtain ⟨first, others⟩ := List.forall_mem_cons.mp each
      simp only [toFormulas, bind_eq_ok, first, ih _ others]
      constructor
      · rintro ⟨part, ⟨own, rfl⟩, parts, ⟨below, rfl⟩, done⟩
        cases done
        exact ⟨List.forall_mem_cons.mpr ⟨own, below⟩, rfl⟩
      · intro ⟨below, written⟩
        cases parts with
        | nil => cases written
        | cons part parts =>
            obtain ⟨own, below⟩ := List.forall_mem_cons.mp below
            obtain ⟨head, tail⟩ := List.cons_eq_cons.mp written
            exact ⟨part, ⟨own, head⟩, parts, ⟨below, tail⟩, rfl⟩

theorem toFormula_eq_ok (name : String) (children : List Tree) (formula : Formula) :
    toFormula ⟨name, children⟩ = .ok formula ↔
      Fits name children.length ∧
        ∃ parts, toFormulas children = .ok parts ∧ connect name parts = formula := by
  rw [toFormula, bind_eq_ok, ← fault?_eq_none_iff, ← failWith_eq_ok]
  constructor
  · intro ⟨_, faultless, read⟩
    obtain ⟨parts, below, done⟩ := (bind_eq_ok _ _ _).mp read
    exact ⟨faultless, parts, below, Except.ok.inj done⟩
  · intro ⟨faultless, parts, below, same⟩
    exact ⟨(), faultless, (bind_eq_ok _ _ _).mpr ⟨parts, below, congrArg Except.ok same⟩⟩

/-- A tree is read as the one formula which is written as this tree and has no node that
is written like another one. -/
theorem toFormula_eq_ok_iff (tree : Tree) (formula : Formula) :
    tree.toFormula = .ok formula ↔ formula.Expressible ∧ ofFormula formula = tree := by
  induction tree generalizing formula with
  | mk name children ih =>
      simp only [toFormula_eq_ok, toFormulas_eq_ok_iff children _ ih]
      constructor
      · rintro ⟨fits, parts, ⟨each, rfl⟩, rfl⟩
        rw [List.length_map] at fits
        exact fits.ofFormula_connect each
      · intro ⟨expressible, written⟩
        rw [ofFormula_eq] at written
        obtain ⟨rfl, rfl⟩ := Tree.mk.inj written
        obtain ⟨own, each⟩ := (Formula.expressible_iff formula).mp expressible
        obtain ⟨fits, connected⟩ := own.connect_eq
        exact ⟨by rwa [List.length_map], formula.parts, ⟨each, rfl⟩, connected⟩

theorem exists_parts (children : List Tree)
    (each : ∀ child ∈ children, ∃ part : Formula, part.Expressible ∧ ofFormula part = child) :
    ∃ parts : List Formula, (∀ part ∈ parts, part.Expressible) ∧ parts.map ofFormula = children := by
  induction children with
  | nil => exact ⟨[], by simp⟩
  | cons child rest ih =>
      obtain ⟨⟨part, own, written⟩, others⟩ := List.forall_mem_cons.mp each
      obtain ⟨parts, below, rfl⟩ := ih others
      exact ⟨part :: parts, List.forall_mem_cons.mpr ⟨own, below⟩, congrArg (· :: _) written⟩

/-- The trees of the grammar are those which are written for some formula and read back. -/
theorem grammatical_iff (tree : Tree) :
    tree.Grammatical ↔ ∃ formula : Formula, formula.Expressible ∧ ofFormula formula = tree := by
  constructor
  · intro grammatical
    induction grammatical with
    | node name children fits _ ih =>
        obtain ⟨parts, each, rfl⟩ := exists_parts children ih
        rw [List.length_map] at fits
        exact ⟨_, fits.ofFormula_connect each⟩
  · rintro ⟨formula, expressible, rfl⟩
    induction formula using Formula.inductParts with
    | node formula ih =>
        obtain ⟨own, each⟩ := (Formula.expressible_iff formula).mp expressible
        rw [ofFormula_eq]
        apply Grammatical.node
        · rw [List.length_map]
          exact own.connect_eq.1
        · rw [List.forall_mem_map]
          exact fun part member => ih part member (each part member)

/-- Reading accepts the trees of the grammar and writing undoes it. Reading undoes
writing for those formulas alone in which no disjunction is empty and no atom goes without
a name or by that of a connective; the tree of any other is refused or is that of a second
formula too, which is the one it is read as. -/
theorem toFormula_inverse :
    (∀ tree : Tree, ((∃ formula, tree.toFormula = .ok formula) ↔ tree.Grammatical) ∧
      ∀ formula, tree.toFormula = .ok formula → ofFormula formula = tree) ∧
    ∀ formula : Formula, ((ofFormula formula).toFormula = .ok formula ↔ formula.Expressible) ∧
      (¬ formula.Expressible → (∃ cause, (ofFormula formula).toFormula = .error cause) ∨
        ∃ other, (ofFormula formula).toFormula = .ok other ∧ other ≠ formula ∧
          ofFormula other = ofFormula formula) := by
  have reads : ∀ formula : Formula,
      (ofFormula formula).toFormula = .ok formula ↔ formula.Expressible := by
    intro formula
    rw [toFormula_eq_ok_iff]
    exact and_iff_left rfl
  refine ⟨fun tree => ⟨?accepts, ?writes⟩, fun formula => ⟨reads formula, ?other⟩⟩
  case accepts => simp only [toFormula_eq_ok_iff, grammatical_iff]
  case writes => exact fun formula read => ((toFormula_eq_ok_iff tree formula).mp read).2
  case other =>
    intro inexpressible
    cases read : (ofFormula formula).toFormula with
    | error cause => exact Or.inl ⟨cause, rfl⟩
    | ok other =>
        refine Or.inr ⟨other, rfl, ?_, ((toFormula_eq_ok_iff _ other).mp read).2⟩
        rintro rfl
        exact inexpressible ((reads other).mp read)

/-- A leaf under the name of a connective is no atom, wherever it stands. -/
theorem toFormula_inverse_and :
    let tree : Tree := ⟨"bicondition", [⟨"p", []⟩, ⟨"not", [⟨"and", []⟩]⟩]⟩
    let formula : Formula := .bicondition (.atom "p") (.not (.and []))
    let lost : Formula := .or [.atom "p", .not (.atom "and")]
    tree.toFormula = .ok formula ∧ ofFormula formula = tree ∧ ¬ lost.Expressible ∧
      (ofFormula lost).toFormula = .ok (.or [.atom "p", .not (.and [])]) ∧
      ((∃ cause, (ofFormula lost).toFormula = .error cause) ∨
        ∃ other, (ofFormula lost).toFormula = .ok other ∧ other ≠ lost ∧
          ofFormula other = ofFormula lost) := by
  intro tree formula lost
  have read : tree.toFormula = .ok formula := rfl
  have inexpressible : ¬ lost.Expressible := by
    intro expressible
    exact ((expressible (.atom "and") (by decide)).2 "and" rfl).2 (by decide)
  exact ⟨read, (toFormula_inverse.1 tree).2 formula read, inexpressible, rfl,
    (toFormula_inverse.2 lost).2 inexpressible⟩

end Tree
end Clausal
