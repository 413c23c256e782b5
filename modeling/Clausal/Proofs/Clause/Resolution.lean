import Clausal.Clause.Resolvent
import Mathlib.Data.List.Nodup
import Mathlib.Data.List.Perm.Subperm

set_option autoImplicit false

namespace Clausal.Clause

theorem nodup_ofList (literals : List Literal) : (ofList literals).literals.Nodup :=
  Ordered.nodup_eraseDups literals

theorem nodup_of_mem_map_ofList (lists : List (List Literal)) :
    ∀ clause ∈ lists.map ofList, clause.literals.Nodup := by
  intro clause member
  obtain ⟨literals, _, made⟩ := List.mem_map.mp member
  rw [← made]
  exact nodup_ofList literals

theorem isTautology_congr (clause other : Clause)
    (same : ∀ literal, literal ∈ clause.literals ↔ literal ∈ other.literals) :
    clause.isTautology = other.isTautology := by
  rw [Bool.eq_iff_iff, isTautology_iff, isTautology_iff]
  simp only [same]

theorem canonical_eq_of_mem_iff (clause other : Clause) (first : clause.literals.Nodup)
    (second : other.literals.Nodup)
    (same : ∀ literal, literal ∈ clause.literals ↔ literal ∈ other.literals) :
    clause.canonical = other.canonical :=
  (canonical_eq_iff clause other).mpr ((List.perm_ext_iff_of_nodup first second).mpr same)

theorem mem_iff_of_canonical_eq (clause other : Clause) (literal : Literal)
    (same : clause.canonical = other.canonical) :
    literal ∈ clause.literals ↔ literal ∈ other.literals :=
  ((canonical_eq_iff clause other).mp same).mem_iff

theorem sameAs_iff_canonical_eq (clause other : Clause) (distinct : clause.literals.Nodup) :
    clause.sameAs other = true ↔ clause.canonical = other.canonical := by
  rw [sameAs_iff, canonical_eq_iff]
  constructor
  · intro ⟨size, within⟩
    exact (distinct.subperm within).perm_of_length_le (Nat.le_of_eq size.symm)
  · intro rearranged
    exact ⟨rearranged.length_eq, fun literal => rearranged.mem_iff.mp⟩

theorem evaluate_of_canonical_eq (valuation : Valuation) (clause other : Clause)
    (same : clause.canonical = other.canonical) :
    clause.evaluate valuation = other.evaluate valuation := by
  rw [Bool.eq_iff_iff, evaluate_iff, evaluate_iff]
  simp only [mem_iff_of_canonical_eq clause other _ same]

theorem eq_singleton_of_forall_eq {literals : List Literal} {literal : Literal}
    (distinct : literals.Nodup) (member : literal ∈ literals)
    (every : ∀ other ∈ literals, other = literal) : literals = [literal] := by
  have repeated := List.eq_replicate_of_mem every
  rw [repeated] at distinct member ⊢
  have few := List.nodup_replicate.mp distinct
  have some := List.length_pos_of_mem member
  rw [List.length_replicate] at some
  have one : literals.length = 1 := by omega
  rw [one]
  rfl

theorem isComplementaryTo_iff (clause other : Clause) :
    clause.isComplementaryTo other = true ↔
      ∃ literal, clause.literals = [literal] ∧ literal.negate ∈ other.literals ∧
        ∀ member ∈ other.literals, member = literal.negate := by
  simp only [isComplementaryTo, isUnit, size, conflictsWith, Bool.and_eq_true, beq_iff_eq,
    List.all_eq_true, containsInverseOf_iff]
  constructor
  · intro ⟨⟨unit, forth⟩, back⟩
    obtain ⟨literal, only⟩ := List.length_eq_one_iff.mp unit
    refine ⟨literal, only, forth literal (only ▸ List.mem_singleton_self literal), ?_⟩
    intro member inside
    have inverse := back member inside
    rw [only, List.mem_singleton] at inverse
    rw [← inverse, Literal.negate_negate]
  · intro ⟨literal, only, inverse, every⟩
    rw [only]
    refine ⟨⟨rfl, ?_⟩, ?_⟩
    · intro member inside
      rw [List.mem_singleton.mp inside]
      exact inverse
    · intro member inside
      rw [every member inside, Literal.negate_negate]
      exact List.mem_singleton_self literal

theorem isComplementaryTo_self (clause : Clause) : clause.isComplementaryTo clause = false := by
  rw [Bool.eq_false_iff]
  intro complementary
  obtain ⟨literal, only, inverse, _⟩ := (isComplementaryTo_iff clause clause).mp complementary
  rw [only, List.mem_singleton] at inverse
  exact Literal.negate_ne literal inverse

theorem isComplementaryTo_iff_of_nodup (clause other : Clause) (distinct : other.literals.Nodup) :
    clause.isComplementaryTo other = true ↔
      ∃ literal, clause.literals = [literal] ∧ other.literals = [literal.negate] := by
  rw [isComplementaryTo_iff]
  refine exists_congr fun literal => and_congr_right fun _ => ?_
  constructor
  · intro ⟨member, every⟩
    exact eq_singleton_of_forall_eq distinct member every
  · intro only
    simp [only]

theorem isComplementaryTo_comm (clause other : Clause) (first : clause.literals.Nodup)
    (second : other.literals.Nodup) :
    clause.isComplementaryTo other = other.isComplementaryTo clause := by
  rw [Bool.eq_iff_iff, isComplementaryTo_iff_of_nodup clause other second,
    isComplementaryTo_iff_of_nodup other clause first]
  constructor
  · intro ⟨literal, only, inverse⟩
    exact ⟨literal.negate, inverse, by rw [Literal.negate_negate, only]⟩
  · intro ⟨literal, only, inverse⟩
    exact ⟨literal.negate, inverse, by rw [Literal.negate_negate, only]⟩

theorem isComplementaryTo_congr {clause other clause' other' : Clause}
    (left : clause.canonical = clause'.canonical) (right : other.canonical = other'.canonical) :
    clause.isComplementaryTo other = clause'.isComplementaryTo other' := by
  have only : ∀ literal, clause.literals = [literal] ↔ clause'.literals = [literal] := by
    intro literal
    rw [← List.perm_singleton, ← List.perm_singleton]
    exact ((canonical_eq_iff clause clause').mp left).congr_left [literal]
  rw [Bool.eq_iff_iff, isComplementaryTo_iff, isComplementaryTo_iff]
  simp only [only, mem_iff_of_canonical_eq other other' _ right]

/-- Complementary clauses never hold together. -/
theorem not_evaluate_of_isComplementaryTo (valuation : Valuation) (clause other : Clause)
    (complementary : clause.isComplementaryTo other = true)
    (first : clause.evaluate valuation = true) : other.evaluate valuation = false := by
  obtain ⟨literal, only, _, every⟩ := (isComplementaryTo_iff clause other).mp complementary
  rw [Bool.eq_false_iff]
  intro second
  obtain ⟨inverse, member, inverseHolds⟩ := (evaluate_iff valuation other).mp second
  obtain ⟨own, inside, holds⟩ := (evaluate_iff valuation clause).mp first
  rw [only, List.mem_singleton] at inside
  rw [every inverse member, Literal.evaluate_negate, ← inside, holds] at inverseHolds
  cases inverseHolds

theorem resolveWith_eq_resolveOn (clause other : Clause) (literal : Literal)
    (found : clause.pivot? other = some literal) :
    clause.resolveWith other = resolveOn literal clause other := by
  rw [resolveWith, found]

theorem nodup_resolveOn (literal : Literal) (clause other : Clause) :
    (resolveOn literal clause other).literals.Nodup :=
  nodup_ofList _

theorem nodup_resolveWith (clause other : Clause) : (clause.resolveWith other).literals.Nodup := by
  rw [resolveWith]
  split
  · exact nodup_ofList _
  · exact nodup_ofList _

/-- Clauses which clash are resolved on one of their clashes. -/
theorem exists_resolveWith_eq (clause other : Clause)
    (clash : ∃ literal ∈ clause.literals, literal.negate ∈ other.literals) :
    ∃ pivot ∈ clause.literals, pivot.negate ∈ other.literals ∧
      clause.resolveWith other = resolveOn pivot clause other := by
  obtain ⟨pivot, found⟩ :=
    Option.isSome_iff_exists.mp ((pivot?_isSome_iff clause other).mpr clash)
  obtain ⟨own, inverse⟩ := mem_of_pivot? clause other pivot found
  exact ⟨pivot, own, inverse, resolveWith_eq_resolveOn clause other pivot found⟩

/-- A clause which clashes with itself keeps both literals of the clash. -/
theorem isTautology_resolveWith_self (clause : Clause)
    (clash : ∃ literal ∈ clause.literals, literal.negate ∈ clause.literals) :
    (clause.resolveWith clause).isTautology = true := by
  obtain ⟨pivot, own, inverse, resolved⟩ := exists_resolveWith_eq clause clause clash
  rw [resolved, isTautology_iff]
  refine ⟨pivot, ?_, ?_⟩
  · exact (mem_resolveOn _ _ _ _).mpr (Or.inr ⟨own, (Literal.negate_ne pivot).symm⟩)
  · exact (mem_resolveOn _ _ _ _).mpr (Or.inl ⟨inverse, Literal.negate_ne pivot⟩)

/-- A clash other than the one resolved on survives, literal and inverse. -/
theorem isTautology_resolveOn {literal member : Literal} {clause other : Clause}
    (inside : member ∈ clause.literals) (inverse : member.negate ∈ other.literals)
    (apart : member ≠ literal) : (resolveOn literal clause other).isTautology = true := by
  have unlike : member.negate ≠ literal.negate := by
    intro equal
    rw [← Literal.negate_negate member, equal, Literal.negate_negate] at apart
    exact apart rfl
  refine (isTautology_iff _).mpr ⟨member, ?_, ?_⟩
  · exact (mem_resolveOn _ _ _ _).mpr (Or.inl ⟨inside, apart⟩)
  · exact (mem_resolveOn _ _ _ _).mpr (Or.inr ⟨inverse, unlike⟩)

theorem pivot?_eq_of_proper (literal : Literal) (clause other : Clause)
    (left : literal ∈ clause.literals) (right : literal.negate ∈ other.literals)
    (proper : (resolveOn literal clause other).isTautology = false) :
    clause.pivot? other = some literal := by
  obtain ⟨pivot, found⟩ :=
    Option.isSome_iff_exists.mp ((pivot?_isSome_iff clause other).mpr ⟨literal, left, right⟩)
  obtain ⟨member, inverse⟩ := mem_of_pivot? clause other pivot found
  by_cases same : pivot = literal
  · rw [found, same]
  · rw [isTautology_resolveOn member inverse same] at proper
    cases proper

theorem mem_resolveOn_negate (literal member : Literal) (clause other : Clause) :
    member ∈ (resolveOn literal.negate other clause).literals ↔
      member ∈ (resolveOn literal clause other).literals := by
  rw [mem_resolveOn, mem_resolveOn, Literal.negate_negate]
  exact or_comm

theorem mem_resolveOn_congr {clause other clause' other' : Clause}
    (left : clause.canonical = clause'.canonical) (right : other.canonical = other'.canonical)
    (literal member : Literal) :
    member ∈ (resolveOn literal clause other).literals ↔
      member ∈ (resolveOn literal clause' other').literals := by
  simp only [mem_resolveOn, mem_iff_of_canonical_eq clause clause' _ left,
    mem_iff_of_canonical_eq other other' _ right]

/-- Resolvents on a literal are the same if their literals are, as they have no repeats. -/
theorem canonical_resolveOn_eq (literal literal' : Literal) (clause other clause' other' : Clause)
    (same : ∀ member, member ∈ (resolveOn literal clause other).literals ↔
      member ∈ (resolveOn literal' clause' other').literals) :
    (resolveOn literal clause other).canonical = (resolveOn literal' clause' other').canonical :=
  canonical_eq_of_mem_iff _ _ (nodup_resolveOn _ _ _) (nodup_resolveOn _ _ _) same

theorem resolveOn_eq_nil_iff (literal : Literal) (clause other : Clause) :
    (resolveOn literal clause other).literals = [] ↔
      (∀ member ∈ clause.literals, member = literal) ∧
        ∀ member ∈ other.literals, member = literal.negate := by
  rw [List.eq_nil_iff_forall_not_mem, ← forall_and]
  simp only [mem_resolveOn, not_or, not_and, not_not]

theorem isComplementaryTo_of_resolveOn_empty (literal : Literal) (clause other : Clause)
    (distinct : clause.literals.Nodup) (left : literal ∈ clause.literals)
    (right : literal.negate ∈ other.literals)
    (empty : (resolveOn literal clause other).literals = []) :
    clause.isComplementaryTo other = true := by
  obtain ⟨own, opposite⟩ := (resolveOn_eq_nil_iff literal clause other).mp empty
  rw [isComplementaryTo_iff]
  exact ⟨literal, eq_singleton_of_forall_eq distinct left own, right, opposite⟩

theorem exists_clash_of_canResolveWith (clause other : Clause)
    (able : clause.canResolveWith other = true) :
    ∃ literal ∈ clause.literals, literal.negate ∈ other.literals := by
  rw [canResolveWith, Bool.and_eq_true] at able
  exact (pivot?_isSome_iff clause other).mp able.1

/-- Only complementary clauses have the empty clause for a resolvent, or such as would be
complementary if the first did not repeat its literal. -/
theorem resolveWith_ne_nil (clause other : Clause) (distinct : clause.literals.Nodup)
    (able : clause.canResolveWith other = true) : (clause.resolveWith other).literals ≠ [] := by
  obtain ⟨pivot, own, inverse, resolved⟩ :=
    exists_resolveWith_eq clause other (exists_clash_of_canResolveWith clause other able)
  rw [resolved]
  intro empty
  rw [canResolveWith, isComplementaryTo_of_resolveOn_empty pivot clause other distinct own inverse
    empty, Bool.not_true, Bool.and_false] at able
  cases able

/-- Every atom of a resolvent is one of its parents'. -/
theorem mem_of_mem_resolveWith (literal : Literal) (clause other : Clause)
    (member : literal ∈ (clause.resolveWith other).literals) :
    literal ∈ clause.literals ∨ literal ∈ other.literals := by
  rw [resolveWith] at member
  split at member
  · exact ((mem_resolveOn _ _ _ _).mp member).imp And.left And.left
  · rw [mem_ofList, List.mem_append] at member
    exact member

end Clausal.Clause
