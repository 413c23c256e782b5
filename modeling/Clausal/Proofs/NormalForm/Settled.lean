import Clausal.Proofs.NormalForm.Refusal

set_option autoImplicit false

/- What each of the first four passes leaves, told by single nodes. One walk from the
leaves up leaves it at every node, although rewriting makes new nodes of the kind
which is rewritten, and a formula which has it at every node is not changed. -/
namespace Clausal.Formula

def Unequated (node : Formula) : Prop :=
  ∀ left right, node ≠ .bicondition left right

def Unconditional (node : Formula) : Prop :=
  ∀ antecedent consequent, node ≠ .condition antecedent consequent

/-- Atoms, and the arrows if there are any: what a negation is not pushed into. -/
def stopsNegation : Formula → Bool
  | .atom _ => true
  | .condition _ _ => true
  | .bicondition _ _ => true
  | _ => false

def NegationStopped (node : Formula) : Prop :=
  ∀ body, node = .not body → body.stopsNegation = true

/-- No disjunction directly above a conjunction. -/
def Undistributable (node : Formula) : Prop :=
  ∀ disjuncts, node = .or disjuncts → ∀ conjuncts, .and conjuncts ∉ disjuncts

theorem throughout_splitBicondition (node : Formula)
    (below : ∀ part ∈ node.parts, part.Throughout Unequated) :
    node.splitBicondition.Throughout Unequated := by
  cases node with
  | bicondition left right =>
      have first := below left (by simp [parts])
      have second := below right (by simp [parts])
      have arrow : ∀ one other : Formula, one.Throughout Unequated → other.Throughout Unequated →
          (condition one other).Throughout Unequated := by
        intro one other before after
        exact (throughout_iff _).mpr ⟨by simp [Unequated], by simp [parts, before, after]⟩
      rw [splitBicondition, throughout_iff]
      exact ⟨by simp [Unequated], by simp [parts, arrow, first, second]⟩
  | _ => exact (throughout_iff _).mpr ⟨by simp [splitBicondition, Unequated], below⟩

theorem Unequated.splitBicondition_eq {node : Formula} (own : node.Unequated) :
    node.splitBicondition = node := by
  cases node with
  | bicondition left right => exact absurd rfl (own left right)
  | _ => rfl

theorem throughout_openCondition (node : Formula)
    (below : ∀ part ∈ node.parts, part.Throughout Unconditional) :
    node.openCondition.Throughout Unconditional := by
  cases node with
  | condition antecedent consequent =>
      have first := below antecedent (by simp [parts])
      have second := below consequent (by simp [parts])
      have negation : (not antecedent).Throughout Unconditional :=
        (throughout_iff _).mpr ⟨by simp [Unconditional], by simp [parts, first]⟩
      rw [openCondition, throughout_iff]
      exact ⟨by simp [Unconditional], by simp [parts, negation, second]⟩
  | _ => exact (throughout_iff _).mpr ⟨by simp [openCondition, Unconditional], below⟩

theorem Unconditional.openCondition_eq {node : Formula} (own : node.Unconditional) :
    node.openCondition = node := by
  cases node with
  | condition antecedent consequent => exact absurd rfl (own antecedent consequent)
  | _ => rfl

theorem throughout_signed (positive : Bool) (formula : Formula)
    (stops : formula.stopsNegation = true) (every : formula.Throughout NegationStopped) :
    (signed positive formula).Throughout NegationStopped := by
  cases positive with
  | true => exact every
  | false =>
      show (not formula).Throughout NegationStopped
      rw [throughout_iff]
      refine ⟨?_, List.forall_mem_singleton.mpr every⟩
      intro body same
      cases same
      exact stops

theorem throughout_conjunction (positive : Bool) (parts : List Formula)
    (each : ∀ part ∈ parts, part.Throughout NegationStopped) :
    (conjunction positive parts).Throughout NegationStopped := by
  cases positive <;> exact (throughout_iff _).mpr ⟨nofun, each⟩

theorem throughout_push (formula : Formula) (positive : Bool) :
    (formula.push positive).Throughout NegationStopped := by
  induction formula generalizing positive with
  | atom name =>
      apply throughout_signed positive _ rfl
      exact (throughout_iff _).mpr ⟨by simp [NegationStopped], by simp [parts]⟩
  | not body ih => exact ih (!positive)
  | and conjuncts ih =>
      rw [push, pushAll_eq]
      apply throughout_conjunction
      exact List.forall_mem_map.mpr fun part member => ih part member positive
  | or disjuncts ih =>
      rw [push, pushAll_eq]
      apply throughout_conjunction
      exact List.forall_mem_map.mpr fun part member => ih part member positive
  | condition antecedent consequent first second =>
      apply throughout_signed positive _ rfl
      exact (throughout_iff _).mpr ⟨by simp [NegationStopped], by simp [parts, first, second]⟩
  | bicondition left right first second =>
      apply throughout_signed positive _ rfl
      exact (throughout_iff _).mpr ⟨by simp [NegationStopped], by simp [parts, first, second]⟩

/-- A negation which was left at an arrow is left there again. -/
theorem Throughout.push_eq {formula : Formula} (every : formula.Throughout NegationStopped) :
    formula.push true = formula := by
  induction formula with
  | atom name => rfl
  | not body ih =>
      obtain ⟨own, below⟩ := (throughout_iff _).mp every
      have inside := ih (below body (List.mem_singleton_self body))
      have stops := own body rfl
      cases body with
      | atom name => rfl
      | condition antecedent consequent => exact congrArg Formula.not inside
      | bicondition left right => exact congrArg Formula.not inside
      | _ => cases stops
  | and conjuncts ih =>
      have below := ((throughout_iff _).mp every).2
      rw [push, pushAll_eq,
        map_eq_self _ conjuncts fun part member => ih part member (below part member)]
      rfl
  | or disjuncts ih =>
      have below := ((throughout_iff _).mp every).2
      rw [push, pushAll_eq,
        map_eq_self _ disjuncts fun part member => ih part member (below part member)]
      rfl
  | condition antecedent consequent first second =>
      have below := ((throughout_iff _).mp every).2
      rw [push, first (below _ (by simp [parts])), second (below _ (by simp [parts]))]
      rfl
  | bicondition left right first second =>
      have below := ((throughout_iff _).mp every).2
      rw [push, first (below _ (by simp [parts])), second (below _ (by simp [parts]))]
      rfl

/-- Below an arrow or an atom the sign it stands with makes no difference. -/
theorem mem_occurrences_of_stopsNegation (body : Formula) (stops : body.stopsNegation = true)
    (positive : Bool) :
    (false, .and []) ∈ body.occurrences signBelow positive ↔
      (false, .and []) ∈ body.occurrences signBelow true := by
  rw [mem_occurrences_iff, mem_occurrences_iff signBelow true]
  cases body with
  | atom name => simp [parts]
  | condition antecedent consequent => simp [signBelow]
  | bicondition left right => simp [signBelow]
  | _ => cases stops

theorem Throughout.not_mem_occurrences {formula : Formula}
    (every : formula.Throughout NegationStopped) :
    (false, .and []) ∉ formula.occurrences signBelow true := by
  induction formula with
  | atom name =>
      rw [mem_occurrences_iff]
      simp [parts]
  | not body ih =>
      obtain ⟨own, below⟩ := (throughout_iff _).mp every
      rw [mem_occurrences_not, mem_occurrences_of_stopsNegation body (own body rfl)]
      exact ih (below body (List.mem_singleton_self body))
  | and conjuncts ih =>
      have below := ((throughout_iff _).mp every).2
      rw [mem_occurrences_and]
      rintro (⟨impossible, _⟩ | ⟨part, member, inside⟩)
      · cases impossible
      · exact ih part member (below part member) inside
  | or disjuncts ih =>
      have below := ((throughout_iff _).mp every).2
      rw [mem_occurrences_or]
      rintro ⟨part, member, inside⟩
      exact ih part member (below part member) inside
  | condition antecedent consequent first second =>
      have below := ((throughout_iff _).mp every).2
      rw [mem_occurrences_iff]
      simp [parts, signBelow, first (below _ (by simp [parts])),
        second (below _ (by simp [parts]))]
  | bicondition left right first second =>
      have below := ((throughout_iff _).mp every).2
      rw [mem_occurrences_iff]
      simp [parts, signBelow, first (below _ (by simp [parts])),
        second (below _ (by simp [parts]))]

theorem faultless_signed (positive : Bool) (formula : Formula) :
    (signed positive formula).Faultless ↔ formula.Faultless := by
  cases positive with
  | true => rfl
  | false => exact faultless_not formula

theorem faultless_conjunction (positive : Bool) (parts : List Formula)
    (inhabited : positive = false → parts ≠ []) (each : ∀ part ∈ parts, part.Faultless) :
    (conjunction positive parts).Faultless := by
  cases positive with
  | true => exact (faultless_and parts).mpr each
  | false => exact (faultless_or parts).mpr ⟨inhabited rfl, each⟩

theorem faultless_push (formula : Formula) (positive : Bool)
    (sound : ∀ place ∈ formula.occurrences signBelow positive, pushFault? place = none) :
    (formula.push positive).Faultless := by
  induction formula generalizing positive with
  | atom name =>
      have own : (atom name).fault? = none := by
        cases positive <;> exact sound _ List.mem_cons_self
      rw [push, faultless_signed, faultless_iff]
      exact ⟨own, by simp [parts]⟩
  | not body ih =>
      rw [occurrences_eq, List.forall_mem_cons, List.forall_mem_flatMap] at sound
      exact ih (!positive) (sound.2 body (List.mem_singleton_self body))
  | and conjuncts ih =>
      rw [occurrences_eq, List.forall_mem_cons, List.forall_mem_flatMap] at sound
      rw [push, pushAll_eq]
      apply faultless_conjunction
      · rintro rfl empty
        rw [List.map_eq_nil_iff] at empty
        rw [empty] at sound
        cases sound.1
      · exact List.forall_mem_map.mpr fun part member =>
          ih part member positive (sound.2 part member)
  | or disjuncts ih =>
      rw [occurrences_eq, List.forall_mem_cons, List.forall_mem_flatMap] at sound
      rw [push, pushAll_eq]
      apply faultless_conjunction
      · intro _ empty
        rw [List.map_eq_nil_iff] at empty
        rw [empty] at sound
        cases positive <;> cases sound.1
      · exact List.forall_mem_map.mpr fun part member =>
          ih part member positive (sound.2 part member)
  | condition antecedent consequent first second =>
      rw [occurrences_eq, List.forall_mem_cons, List.forall_mem_flatMap] at sound
      rw [push, faultless_signed, faultless_condition]
      exact ⟨first true (sound.2 _ (by simp [parts])), second true (sound.2 _ (by simp [parts]))⟩
  | bicondition left right first second =>
      rw [occurrences_eq, List.forall_mem_cons, List.forall_mem_flatMap] at sound
      rw [push, faultless_signed, faultless_bicondition]
      exact ⟨first true (sound.2 _ (by simp [parts])), second true (sound.2 _ (by simp [parts]))⟩

/-- The disjuncts up to the first conjunction are chosen as they stand. -/
theorem spread_append_of_leaves (chosen before rest : List Formula)
    (leaves : ∀ conjuncts, .and conjuncts ∉ before) :
    spread chosen (before ++ rest) = spread (chosen ++ before) rest := by
  induction before generalizing chosen with
  | nil => rw [List.nil_append, List.append_nil]
  | cons disjunct before ih =>
      have single : ∀ conjuncts, disjunct ≠ .and conjuncts :=
        fun conjuncts same => leaves conjuncts (same ▸ List.mem_cons_self)
      have others : ∀ conjuncts, .and conjuncts ∉ before :=
        fun conjuncts member => leaves conjuncts (List.mem_cons_of_mem _ member)
      rw [List.cons_append, spread, overConjuncts_of_leaf _ disjunct single, ih _ others,
        List.append_assoc, List.singleton_append]

theorem spread_of_leaves (chosen rest : List Formula)
    (leaves : ∀ conjuncts, .and conjuncts ∉ rest) : spread chosen rest = .or (chosen ++ rest) := by
  have whole := spread_append_of_leaves chosen rest [] leaves
  rw [List.append_nil] at whole
  rw [whole, spread]

theorem Undistributable.distributeNode_eq {node : Formula} (own : node.Undistributable) :
    node.distributeNode = node := by
  cases node with
  | or disjuncts => exact spread_of_leaves [] disjuncts (own disjuncts rfl)
  | _ => rfl

section

variable {property : Formula → Prop} (joins : ∀ conjuncts, property (.and conjuncts))

include joins

theorem Throughout.overConjuncts {change : Formula → Formula}
    (makes : ∀ leaf, (∀ conjuncts, leaf ≠ .and conjuncts) → leaf.Throughout property →
      (change leaf).Throughout property) {formula : Formula}
    (every : formula.Throughout property) : (formula.overConjuncts change).Throughout property := by
  induction formula with
  | and conjuncts ih =>
      have below := ((throughout_iff _).mp every).2
      rw [Formula.overConjuncts, overConjunctsAll_eq, throughout_iff]
      refine ⟨joins _, List.forall_mem_map.mpr ?_⟩
      exact fun part member => ih part member (below part member)
  | _ => exact makes _ (by simp) every

/-- Spreading makes conjunctions and, of as many disjuncts as there were, none of them
a conjunction, disjunctions. -/
theorem throughout_spread (count : Nat)
    (closes : ∀ disjuncts : List Formula, disjuncts.length = count →
      (∀ conjuncts, .and conjuncts ∉ disjuncts) → property (.or disjuncts))
    (chosen rest : List Formula) (counted : (chosen ++ rest).length = count)
    (leaves : ∀ conjuncts, .and conjuncts ∉ chosen)
    (before : ∀ part ∈ chosen, part.Throughout property)
    (after : ∀ part ∈ rest, part.Throughout property) :
    (spread chosen rest).Throughout property := by
  induction rest generalizing chosen with
  | nil =>
      rw [List.append_nil] at counted
      rw [spread, throughout_iff]
      exact ⟨closes chosen counted leaves, before⟩
  | cons disjunct rest ih =>
      obtain ⟨first, others⟩ := List.forall_mem_cons.mp after
      rw [spread]
      apply Throughout.overConjuncts joins _ first
      intro leaf single every
      apply ih (chosen ++ [leaf])
      · simpa using counted
      · intro conjuncts member
        rcases List.mem_append.mp member with earlier | last
        · exact leaves conjuncts earlier
        · exact single conjuncts (List.mem_singleton.mp last).symm
      · rw [List.forall_mem_append, List.forall_mem_singleton]
        exact ⟨before, every⟩
      · exact others

end

theorem throughout_distributeNode (node : Formula)
    (below : ∀ part ∈ node.parts, part.Throughout Undistributable) :
    node.distributeNode.Throughout Undistributable := by
  cases node with
  | or disjuncts =>
      apply throughout_spread (fun _ => nofun) disjuncts.length _ [] disjuncts rfl nofun nofun below
      intro leaves _ single others same
      exact Formula.or.inj same ▸ single
  | _ => exact (throughout_iff _).mpr ⟨nofun, below⟩

theorem Faultless.distributeNode {node : Formula} (faultless : node.Faultless) :
    node.distributeNode.Faultless := by
  cases node with
  | or disjuncts =>
      obtain ⟨inhabited, below⟩ := (faultless_or disjuncts).mp faultless
      have joins : ∀ conjuncts, (and conjuncts).fault? = none := fun _ => rfl
      apply throughout_spread joins disjuncts.length _ [] disjuncts rfl nofun nofun below
      intro leaves counted _
      cases leaves with
      | nil => exact absurd (List.length_eq_zero_iff.mp counted.symm) inhabited
      | cons part rest => rfl
  | _ => exact faultless

section

variable {rule : Formula → Formula} {property : Formula → Prop} {formula changed : Formula}

/-- A walk which is made once the formula is checked has nothing to do where its rule does
nothing. -/
theorem Faultless.walk_eq (faultless : formula.Faultless)
    (keeps : ∀ node, property node → rule node = node) (every : formula.Throughout property) :
    (formula.check >>= fun _ => .ok (formula.mapNodes rule)) = .ok formula := by
  rw [faultless.check, every.mapNodes_eq keeps]
  rfl

theorem settled_of_walk
    (sound : ∀ node, node.Faultless → (rule node).Faultless)
    (makes : ∀ node, (∀ part ∈ node.parts, part.Throughout property) →
      (rule node).Throughout property)
    (success : (formula.check >>= fun _ => .ok (formula.mapNodes rule)) = .ok changed) :
    changed.Faultless ∧ changed.Throughout property := by
  obtain ⟨_, checked, done⟩ := (bind_eq_ok _ _ _).mp success
  cases done
  have faultless : formula.Faultless := (check_eq_ok formula).mp checked
  exact ⟨faultless.mapNodes sound, throughout_mapNodes makes formula⟩

end

section

variable {formula : Formula} (faultless : formula.Faultless)

include faultless

theorem eliminateBiconditions_eq (every : formula.Throughout Unequated) :
    formula.eliminateBiconditions = .ok formula :=
  faultless.walk_eq (fun _ => Unequated.splitBicondition_eq) every

theorem eliminateConditions_eq (every : formula.Throughout Unconditional) :
    formula.eliminateConditions = .ok formula :=
  faultless.walk_eq (fun _ => Unconditional.openCondition_eq) every

theorem pushNegations_eq (every : formula.Throughout NegationStopped) :
    formula.pushNegations = .ok formula := by
  rw [pushNegations_of_faultless _ faultless, if_neg every.not_mem_occurrences, every.push_eq]

theorem distribute_eq (every : formula.Throughout Undistributable) :
    formula.distribute = .ok formula :=
  faultless.walk_eq (fun _ => Undistributable.distributeNode_eq) every

end

section

variable (formula changed : Formula)

theorem settled_of_eliminateBiconditions (success : formula.eliminateBiconditions = .ok changed) :
    changed.Faultless ∧ changed.Throughout Unequated :=
  settled_of_walk (fun _ => Faultless.splitBicondition) throughout_splitBicondition success

theorem settled_of_eliminateConditions (success : formula.eliminateConditions = .ok changed) :
    changed.Faultless ∧ changed.Throughout Unconditional :=
  settled_of_walk (fun _ => Faultless.openCondition) throughout_openCondition success

theorem settled_of_pushNegations (success : formula.pushNegations = .ok changed) :
    changed.Faultless ∧ changed.Throughout NegationStopped := by
  obtain ⟨_, checked, done⟩ := (bind_eq_ok _ _ _).mp success
  cases done
  rw [failWith_eq_ok, List.findSome?_eq_none_iff] at checked
  exact ⟨faultless_push formula true checked, throughout_push formula true⟩

theorem settled_of_distribute (success : formula.distribute = .ok changed) :
    changed.Faultless ∧ changed.Throughout Undistributable :=
  settled_of_walk (fun _ => Faultless.distributeNode) throughout_distributeNode success

end

section

variable {node : Formula} (pushed : node.Pushed)

include pushed

theorem Pushed.unequated : node.Unequated := by
  cases pushed with
  | literal literal _ =>
      obtain ⟨name, negated⟩ := literal
      cases negated <;> exact nofun
  | _ => exact nofun

theorem Pushed.unconditional : node.Unconditional := by
  cases pushed with
  | literal literal _ =>
      obtain ⟨name, negated⟩ := literal
      cases negated <;> exact nofun
  | _ => exact nofun

theorem Pushed.negationStopped : node.NegationStopped := by
  rintro body rfl
  have single := pushed.isAtom_of_not
  cases body with
  | atom name => rfl
  | _ => cases single

end

theorem Conjunctive.undistributable {node : Formula} (conjunctive : node.Conjunctive) :
    node.Undistributable := by
  rintro disjuncts rfl conjuncts member
  exact (conjunctive.disjunctive_of_or _ member).ne_and conjuncts rfl

end Clausal.Formula
