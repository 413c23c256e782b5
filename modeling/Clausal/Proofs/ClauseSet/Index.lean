import Clausal.ClauseSet
import Clausal.Proofs.Clause.Resolution
import Mathlib.Data.List.Induction

set_option autoImplicit false

namespace Clausal.ClauseSet

/-- The clauses of a set in the order of their keys. -/
def toList (set : ClauseSet) : List Clause :=
  set.clauses.toList

theorem get?_eq (set : ClauseSet) (key : Nat) : set.get? key = set.toList[key]? := by
  rw [get?, toList, Array.getElem?_toList]

theorem length_toList (set : ClauseSet) : set.toList.length = set.size :=
  Array.length_toList

theorem mem_toList_iff (set : ClauseSet) (clause : Clause) :
    clause ∈ set.toList ↔ ∃ key, set.get? key = some clause := by
  simp only [get?_eq, List.mem_iff_getElem?]

theorem get?_lt (set : ClauseSet) (key : Nat) (clause : Clause)
    (found : set.get? key = some clause) : key < set.size := by
  rw [get?_eq] at found
  rw [← length_toList]
  exact (List.getElem?_eq_some_iff.mp found).1

theorem exists_get? (set : ClauseSet) (key : Nat) (inside : key < set.size) :
    ∃ clause, set.get? key = some clause := by
  rw [← length_toList] at inside
  exact ⟨set.toList[key], by rw [get?_eq, List.getElem?_eq_getElem inside]⟩

/-- A set which has only grown knows its clauses by the keys they had. -/
theorem get?_of_kept {set later : ClauseSet} (kept : set.toList <+: later.toList) (key : Nat)
    (clause : Clause) (found : set.get? key = some clause) : later.get? key = some clause := by
  obtain ⟨more, whole⟩ := kept
  rw [get?_eq] at found ⊢
  have inside := (List.getElem?_eq_some_iff.mp found).1
  rw [← whole, List.getElem?_append_left inside, found]

theorem size_le_of_kept {set later : ClauseSet} (kept : set.toList <+: later.toList) :
    set.size ≤ later.size := by
  rw [← length_toList, ← length_toList]
  exact kept.length_le

theorem size_of_append {set later : ClauseSet} {more : List Clause}
    (grown : later.toList = set.toList ++ more) : later.size = set.size + more.length := by
  rw [← length_toList, grown, List.length_append, length_toList]

theorem evaluate_iff (valuation : Valuation) (set : ClauseSet) :
    set.evaluate valuation = true ↔
      ∀ clause ∈ set.toList, clause.evaluate valuation = true := by
  rw [evaluate, toList, List.all_eq_true]

theorem toList_insert (set : ClauseSet) (clause : Clause)
    (proper : clause.isTautology = false) (fresh : set.contains clause = false) :
    (set.insert clause).2.toList = set.toList ++ [clause] := by
  rw [insert_fresh set clause proper fresh]
  exact Array.toList_push

/-- An insertion does nothing or adds the clause after all others. -/
theorem insert_cases (set : ClauseSet) (clause : Clause) :
    ((clause.isTautology = true ∨ set.contains clause = true) ∧
        set.insert clause = (none, set)) ∨
      (clause.isTautology = false ∧ set.contains clause = false ∧
        (set.insert clause).1 = some set.size ∧
        (set.insert clause).2.toList = set.toList ++ [clause] ∧
        (set.insert clause).2.index = set.index.insert clause.canonical) := by
  by_cases refused : clause.isTautology = true ∨ set.contains clause = true
  · exact Or.inl ⟨refused, insert_refused set clause refused⟩
  · simp only [not_or, Bool.not_eq_true] at refused
    have added := toList_insert set clause refused.1 refused.2
    refine Or.inr ⟨refused.1, refused.2, ?_, added, ?_⟩
    · rw [insert_fresh set clause refused.1 refused.2]
    · rw [insert_fresh set clause refused.1 refused.2]

/-- The clauses are no tautologies and differ from one another by more than the
order of their literals, and the index holds their canonical forms and no other. -/
structure Valid (set : ClauseSet) : Prop where
  indexed : ∀ form, set.index.contains form = true ↔
    ∃ clause ∈ set.toList, clause.canonical = form
  proper : ∀ clause ∈ set.toList, clause.isTautology = false
  apart : set.toList.Pairwise fun clause other => clause.canonical ≠ other.canonical

theorem Valid.contains_iff {set : ClauseSet} (valid : set.Valid) (clause : Clause) :
    set.contains clause = true ↔
      ∃ member ∈ set.toList, member.canonical = clause.canonical :=
  valid.indexed clause.canonical

theorem Valid.key_eq_of_sameAs {set : ClauseSet} (valid : set.Valid) (key other : Nat)
    (clause same : Clause) (distinct : clause.literals.Nodup) (found : set.get? key = some clause)
    (found' : set.get? other = some same) (equal : clause.sameAs same = true) : key = other := by
  have form := (Clause.sameAs_iff_canonical_eq clause same distinct).mp equal
  have apart := List.pairwise_iff_getElem.mp valid.apart
  rw [get?_eq, List.getElem?_eq_some_iff] at found found'
  obtain ⟨inside, here⟩ := found
  obtain ⟨inside', there⟩ := found'
  rcases Nat.lt_trichotomy key other with before | level | after
  · exact absurd (by rw [here, there, form]) (apart key other inside inside' before)
  · exact level
  · exact absurd (by rw [here, there, form]) (apart other key inside' inside after)

theorem valid_empty : Valid {} where
  indexed form := by
    constructor
    · intro found
      simp at found
    · intro ⟨clause, member, _⟩
      cases member
  proper _ member := by cases member
  apart := .nil

theorem Valid.insert {set : ClauseSet} (valid : set.Valid) (clause : Clause) :
    (set.insert clause).2.Valid := by
  rcases insert_cases set clause with ⟨_, same⟩ | ⟨proper, fresh, _, added, index⟩
  · rw [same]
    exact valid
  · constructor
    · intro form
      rw [index, added, Std.TreeSet.contains_insert, Bool.or_eq_true, valid.indexed, beq_iff_eq,
        Std.compare_eq_iff_eq]
      simp only [List.mem_append, List.mem_singleton, or_and_right, exists_or, exists_eq_left]
      exact or_comm
    · intro member found
      rw [added, List.mem_append, List.mem_singleton] at found
      rcases found with found | same
      · exact valid.proper member found
      · exact same ▸ proper
    · rw [added, List.pairwise_append]
      refine ⟨valid.apart, List.pairwise_singleton _ _, ?_⟩
      intro member found other last same
      rw [List.mem_singleton.mp last] at same
      have known := (valid.contains_iff clause).mpr ⟨member, found, same⟩
      rw [fresh] at known
      cases known

theorem valid_ofList (clauses : List Clause) : (ofList clauses).Valid := by
  induction clauses using List.reverseRecOn with
  | nil => exact valid_empty
  | append_singleton clauses last ih =>
      rw [ofList_concat]
      exact ih.insert last

/-- Nothing gets into a set which was not offered. -/
theorem mem_of_mem_ofList (clauses : List Clause) (clause : Clause)
    (member : clause ∈ (ofList clauses).toList) : clause ∈ clauses := by
  induction clauses using List.reverseRecOn with
  | nil => cases member
  | append_singleton clauses last ih =>
      rw [ofList_concat] at member
      rcases insert_cases (ofList clauses) last with ⟨_, same⟩ | ⟨_, _, _, added, _⟩
      · rw [same] at member
        exact List.mem_append_left _ (ih member)
      · rw [added, List.mem_append] at member
        exact List.mem_append.mpr (member.imp_left ih)

/-- What holds of tautologies and whatever the order of literals holds of the
clauses of a set if and only if it holds of all which were offered. -/
theorem forall_mem_ofList (property : Clause → Prop)
    (tautology : ∀ clause : Clause, clause.isTautology = true → property clause)
    (reordered : ∀ clause other : Clause, clause.canonical = other.canonical →
      property clause → property other) (clauses : List Clause) :
    (∀ clause ∈ (ofList clauses).toList, property clause) ↔
      ∀ clause ∈ clauses, property clause := by
  constructor
  · intro every
    induction clauses using List.reverseRecOn with
    | nil =>
        intro clause member
        cases member
    | append_singleton clauses last ih =>
        rw [ofList_concat] at every
        rw [List.forall_mem_append, List.forall_mem_singleton]
        rcases insert_cases (ofList clauses) last with ⟨refused, same⟩ | ⟨_, _, _, added, _⟩
        · rw [same] at every
          refine ⟨ih every, ?_⟩
          rcases refused with refused | known
          · exact tautology last refused
          · obtain ⟨member, found, order⟩ := ((valid_ofList clauses).contains_iff last).mp known
            exact reordered member last order (every member found)
        · rw [added, List.forall_mem_append, List.forall_mem_singleton] at every
          exact ⟨ih every.1, every.2⟩
  · intro every clause member
    exact every clause (mem_of_mem_ofList clauses clause member)

/-- Clauses none of which is refused are kept as they are, in the order they are offered. -/
theorem toList_ofList (clauses : List Clause)
    (proper : ∀ clause ∈ clauses, clause.isTautology = false)
    (apart : clauses.Pairwise fun clause other => clause.canonical ≠ other.canonical) :
    (ofList clauses).toList = clauses := by
  induction clauses using List.reverseRecOn with
  | nil => rfl
  | append_singleton clauses last ih =>
      rw [List.forall_mem_append, List.forall_mem_singleton] at proper
      rw [List.pairwise_append] at apart
      have kept := ih proper.1 apart.1
      have fresh : (ofList clauses).contains last = false := by
        rw [Bool.eq_false_iff, ne_eq, (valid_ofList clauses).contains_iff, kept]
        intro ⟨clause, member, same⟩
        exact apart.2.2 clause member last List.mem_cons_self same
      rw [ofList_concat, toList_insert _ last proper.2 fresh, kept]

theorem evaluate_ofList (valuation : Valuation) (clauses : List Clause) :
    (ofList clauses).evaluate valuation = clauses.all (Clause.evaluate valuation) := by
  rw [Bool.eq_iff_iff, evaluate_iff, List.all_eq_true]
  apply forall_mem_ofList fun clause => clause.evaluate valuation = true
  · exact Clause.evaluate_of_isTautology valuation
  · intro clause other order holds
    rw [← Clause.evaluate_of_canonical_eq valuation clause other order, holds]

end Clausal.ClauseSet
