import Clausal.Proofs.Clause.Resolution

set_option autoImplicit false

namespace Clausal

theorem Literal.eq_or_eq_negate (literal other : Literal) (same : literal.atom = other.atom) :
    literal = other ∨ literal = other.negate := by
  obtain ⟨atom, negated⟩ := literal
  obtain ⟨atom', negated'⟩ := other
  cases same
  cases negated <;> cases negated' <;> simp [negate]

namespace Clause

/-- The atom stands in both clauses, with opposite signs. -/
def ClashesOn (clause other : Clause) (atom : String) : Prop :=
  ∃ literal ∈ clause.literals, literal.negate ∈ other.literals ∧ literal.atom = atom

theorem ClashesOn.symm {clause other : Clause} {atom : String}
    (clash : clause.ClashesOn other atom) : other.ClashesOn clause atom := by
  obtain ⟨literal, member, inverse, named⟩ := clash
  refine ⟨literal.negate, inverse, ?_, named⟩
  rw [Literal.negate_negate]
  exact member

theorem pivot?_isSome_comm (clause other : Clause) :
    (clause.pivot? other).isSome = (other.pivot? clause).isSome := by
  have forth : ∀ left right : Clause, (left.pivot? right).isSome = true →
      (right.pivot? left).isSome = true := by
    intro left right found
    obtain ⟨literal, member, inverse⟩ := (pivot?_isSome_iff left right).mp found
    rw [← Literal.negate_negate literal] at member
    exact (pivot?_isSome_iff right left).mpr ⟨literal.negate, inverse, member⟩
  rw [Bool.eq_iff_iff]
  exact ⟨forth clause other, forth other clause⟩

theorem canResolveWith_comm (clause other : Clause) (first : clause.literals.Nodup)
    (second : other.literals.Nodup) :
    clause.canResolveWith other = other.canResolveWith clause := by
  rw [canResolveWith, canResolveWith, pivot?_isSome_comm,
    isComplementaryTo_comm clause other first second]

section

variable {clause other : Clause} {literal : Literal}

/-- An atom has one sign in a clause which is no tautology. -/
theorem eq_of_atom_eq (proper : clause.isTautology = false) (own : literal ∈ clause.literals)
    (member : Literal) (inside : member ∈ clause.literals) (same : member.atom = literal.atom) :
    member = literal := by
  rcases Literal.eq_or_eq_negate member literal same with equal | inverse
  · exact equal
  · have tautology := (isTautology_iff clause).mpr ⟨literal, own, inverse ▸ inside⟩
    rw [proper] at tautology
    cases tautology

section

variable (own : literal ∈ clause.literals) (inverse : literal.negate ∈ other.literals)
  (sole : ∀ member ∈ clause.literals, member.negate ∈ other.literals → member = literal)

include own inverse sole

theorem resolveWith_eq_of_sole : clause.resolveWith other = resolveOn literal clause other := by
  obtain ⟨pivot, member, opposite, resolved⟩ :=
    exists_resolveWith_eq clause other ⟨literal, own, inverse⟩
  rw [resolved, sole pivot member opposite]

/-- Given up are just the literals whose inverse is in the other clause. -/
theorem mem_resolveOn_of_sole (member : Literal) :
    member ∈ (resolveOn literal clause other).literals ↔
      (member ∈ clause.literals ∧ member.negate ∉ other.literals) ∨
        (member ∈ other.literals ∧ member.negate ∉ clause.literals) := by
  rw [mem_resolveOn]
  refine or_congr (and_congr_right fun inside => ?_) (and_congr_right fun inside => ?_)
  · constructor
    · exact fun apart opposite => apart (sole member inside opposite)
    · rintro absent rfl
      exact absent inverse
  · constructor
    · intro apart opposite
      rw [← Literal.negate_negate member] at inside
      have equal := sole member.negate opposite inside
      exact apart (by rw [← equal, Literal.negate_negate])
    · rintro absent rfl
      rw [Literal.negate_negate] at absent
      exact absent own

theorem not_isTautology_resolveOn (proper : clause.isTautology = false)
    (proper' : other.isTautology = false) :
    (resolveOn literal clause other).isTautology = false := by
  have left := mt (isTautology_iff clause).mpr (Bool.eq_false_iff.mp proper)
  have right := mt (isTautology_iff other).mpr (Bool.eq_false_iff.mp proper')
  rw [Bool.eq_false_iff, ne_eq, isTautology_iff]
  rintro ⟨member, inside, opposite⟩
  rw [mem_resolveOn_of_sole own inverse sole] at inside opposite
  rw [Literal.negate_negate] at opposite
  -- a literal and its inverse come from the same clause, or one of them was given up
  rcases inside with ⟨inside, absent⟩ | ⟨inside, absent⟩ <;>
    rcases opposite with ⟨opposite, absent'⟩ | ⟨opposite, absent'⟩
  · exact left ⟨member, inside, opposite⟩
  · exact absent opposite
  · exact absent opposite
  · exact right ⟨member, inside, opposite⟩

end

end

/-- What is left is nothing where both clauses are single literals, and only there. -/
theorem isEmpty_resolveWith_iff (clause other : Clause) (first : clause.literals.Nodup)
    (second : other.literals.Nodup)
    (clash : ∃ literal ∈ clause.literals, literal.negate ∈ other.literals) :
    (clause.resolveWith other).isEmpty = true ↔ clause.isComplementaryTo other = true := by
  obtain ⟨pivot, own, inverse, resolved⟩ := exists_resolveWith_eq clause other clash
  rw [resolved, isEmpty, List.isEmpty_iff]
  constructor
  · exact isComplementaryTo_of_resolveOn_empty pivot clause other first own inverse
  · intro complementary
    obtain ⟨literal, only, opposite⟩ :=
      (isComplementaryTo_iff_of_nodup clause other second).mp complementary
    rw [only, List.mem_singleton] at own
    rw [resolveOn_eq_nil_iff, only, opposite, own]
    exact ⟨fun _ => List.mem_singleton.mp, fun _ => List.mem_singleton.mp⟩

/-- Of two clashes one survives the resolution on any literal. -/
theorem isTautology_resolveOn_of_several (clause other : Clause)
    (several : ∃ atom atom', atom ≠ atom' ∧ clause.ClashesOn other atom ∧
      clause.ClashesOn other atom')
    (literal : Literal) : (resolveOn literal clause other).isTautology = true := by
  obtain ⟨atom, atom', unlike, ⟨first, inside, inverse, named⟩,
    ⟨second, inside', inverse', named'⟩⟩ := several
  by_cases same : literal = first
  · refine isTautology_resolveOn inside' inverse' fun equal => unlike ?_
    rw [← named, ← named', equal, same]
  · exact isTautology_resolveOn inside inverse (Ne.symm same)

theorem isTautology_resolveWith_of_several (clause other : Clause)
    (several : ∃ atom atom', atom ≠ atom' ∧ clause.ClashesOn other atom ∧
      clause.ClashesOn other atom') : (clause.resolveWith other).isTautology = true := by
  have resolvents := isTautology_resolveOn_of_several clause other several
  obtain ⟨_, _, _, ⟨literal, inside, inverse, _⟩, _⟩ := several
  obtain ⟨pivot, _, _, resolved⟩ := exists_resolveWith_eq clause other ⟨literal, inside, inverse⟩
  rw [resolved]
  exact resolvents pivot

/-- A clash on a single atom is a clash on a single literal. -/
theorem exists_sole_of_existsUnique (clause other : Clause) (proper : clause.isTautology = false)
    (single : ∃! atom, clause.ClashesOn other atom) :
    ∃ literal ∈ clause.literals, literal.negate ∈ other.literals ∧
      ∀ member ∈ clause.literals, member.negate ∈ other.literals → member = literal := by
  obtain ⟨atom, ⟨literal, own, inverse, named⟩, unique⟩ := single
  refine ⟨literal, own, inverse, fun member inside opposite => ?_⟩
  have same : member.atom = atom := unique member.atom ⟨member, inside, opposite, rfl⟩
  exact eq_of_atom_eq proper own member inside (same.trans named.symm)

theorem sole_negate {clause other : Clause} {literal : Literal}
    (sole : ∀ member ∈ clause.literals, member.negate ∈ other.literals → member = literal) :
    ∀ member ∈ other.literals, member.negate ∈ clause.literals → member = literal.negate := by
  intro member inside opposite
  rw [← Literal.negate_negate member] at inside
  rw [← sole member.negate opposite inside, Literal.negate_negate]

/-- What holds of two clauses which clash: of what they leave, by the count of their
clashes, and of whether they are to be resolved at all. -/
structure Laws (clause other : Clause) : Prop where
  entailed : ∀ valuation, clause.evaluate valuation = true → other.evaluate valuation = true →
    (clause.resolveWith other).evaluate valuation = true
  isEmpty_iff : (clause.resolveWith other).isEmpty = true ↔ clause.isComplementaryTo other = true
  complementary_comm : clause.isComplementaryTo other = other.isComplementaryTo clause
  able_comm : clause.canResolveWith other = other.canResolveWith clause
  /-- They can be resolved or are complementary, and never both. -/
  able_iff : clause.canResolveWith other = true ↔ clause.isComplementaryTo other = false
  single : (∃! atom, clause.ClashesOn other atom) →
    (clause.resolveWith other).sameAs (other.resolveWith clause) = true ∧
      (clause.resolveWith other).isTautology = false ∧
      ∀ literal, literal ∈ (clause.resolveWith other).literals ↔
        (literal ∈ clause.literals ∧ literal.negate ∉ other.literals) ∨
          (literal ∈ other.literals ∧ literal.negate ∉ clause.literals)
  several : (∃ atom atom', atom ≠ atom' ∧ clause.ClashesOn other atom ∧
      clause.ClashesOn other atom') →
    (clause.resolveWith other).isTautology = true ∧
      (other.resolveWith clause).isTautology = true ∧
      (∀ literal ∈ clause.literals, literal.negate ∈ other.literals →
        (resolveOn literal clause other).isTautology = true) ∧
      ∀ literal ∈ other.literals, literal.negate ∈ clause.literals →
        (resolveOn literal other clause).isTautology = true

theorem resolution_laws (literals literals' : List Literal)
    (proper : (ofList literals).isTautology = false)
    (proper' : (ofList literals').isTautology = false)
    (clash : ∃ atom, (ofList literals).ClashesOn (ofList literals') atom) :
    Laws (ofList literals) (ofList literals') := by
  have first := nodup_ofList literals
  have second := nodup_ofList literals'
  generalize ofList literals = clause at *
  generalize ofList literals' = other at *
  have clashing : ∃ literal ∈ clause.literals, literal.negate ∈ other.literals := by
    obtain ⟨_, literal, own, inverse, _⟩ := clash
    exact ⟨literal, own, inverse⟩
  constructor
  case entailed => exact fun valuation => evaluate_resolveWith valuation clause other
  case isEmpty_iff => exact isEmpty_resolveWith_iff clause other first second clashing
  case complementary_comm => exact isComplementaryTo_comm clause other first second
  case able_comm => exact canResolveWith_comm clause other first second
  case able_iff => simp [canResolveWith, (pivot?_isSome_iff clause other).mpr clashing]
  case single =>
    intro single
    obtain ⟨literal, own, inverse, sole⟩ := exists_sole_of_existsUnique clause other proper single
    have own' : literal.negate.negate ∈ clause.literals := by
      rw [Literal.negate_negate]
      exact own
    have swapped := resolveWith_eq_of_sole inverse own' (sole_negate sole)
    refine ⟨?_, ?_, ?_⟩
    · rw [sameAs_iff_canonical_eq _ _ (nodup_resolveWith clause other), swapped,
        resolveWith_eq_of_sole own inverse sole]
      exact (canonical_resolveOn_eq _ _ _ _ _ _ fun member =>
        mem_resolveOn_negate literal member clause other).symm
    · rw [resolveWith_eq_of_sole own inverse sole]
      exact not_isTautology_resolveOn own inverse sole proper proper'
    · rw [resolveWith_eq_of_sole own inverse sole]
      exact mem_resolveOn_of_sole own inverse sole
  case several =>
    intro several
    have several' : ∃ atom atom', atom ≠ atom' ∧ other.ClashesOn clause atom ∧
        other.ClashesOn clause atom' := by
      obtain ⟨atom, atom', unlike, left, right⟩ := several
      exact ⟨atom, atom', unlike, left.symm, right.symm⟩
    exact ⟨isTautology_resolveWith_of_several clause other several,
      isTautology_resolveWith_of_several other clause several',
      fun literal _ _ => isTautology_resolveOn_of_several clause other several literal,
      fun literal _ _ => isTautology_resolveOn_of_several other clause several' literal⟩

/-- Of `p || q || s` and `s || !p || r` there remains `q || s || r`, of `p || q` and
`!q || !p` only a tautology. -/
theorem resolution_laws_p_q :
    let pq := ofList [⟨"p", false⟩, ⟨"q", false⟩]
    let pqs := ofList [⟨"p", false⟩, ⟨"q", false⟩, ⟨"s", false⟩]
    let spr := ofList [⟨"s", false⟩, ⟨"p", true⟩, ⟨"r", false⟩]
    let qp := ofList [⟨"q", true⟩, ⟨"p", true⟩]
    pqs.isTautology = false ∧ spr.isTautology = false ∧
      pqs.resolveWith spr = ofList [⟨"q", false⟩, ⟨"s", false⟩, ⟨"r", false⟩] ∧
      spr.resolveWith pqs = ofList [⟨"s", false⟩, ⟨"r", false⟩, ⟨"q", false⟩] ∧
      (pqs.resolveWith spr).sameAs (spr.resolveWith pqs) = true ∧
      pqs.canResolveWith spr = true ∧
      pq.isTautology = false ∧ qp.isTautology = false ∧
      (pq.resolveWith qp).isTautology = true ∧ (qp.resolveWith pq).isTautology = true ∧
      (resolveOn ⟨"q", false⟩ pq qp).isTautology = true := by
  intro pq pqs spr qp
  have clash : pqs.ClashesOn spr "p" := ⟨⟨"p", false⟩, by decide, by decide, rfl⟩
  have left : pq.ClashesOn qp "p" := ⟨⟨"p", false⟩, by decide, by decide, rfl⟩
  have right : pq.ClashesOn qp "q" := ⟨⟨"q", false⟩, by decide, by decide, rfl⟩
  have single : ∃! atom, pqs.ClashesOn spr atom := by
    refine ⟨"p", clash, ?_⟩
    rintro atom ⟨literal, own, inverse, named⟩
    have only : ∀ literal ∈ pqs.literals, literal.negate ∈ spr.literals → literal.atom = "p" := by
      decide
    exact named.symm.trans (only literal own inverse)
  have laws := resolution_laws _ _ (by decide) (by decide) ⟨"p", clash⟩
  have laws' := resolution_laws _ _ (by decide) (by decide) ⟨"p", left⟩
  obtain ⟨same, _, _⟩ := laws.single single
  obtain ⟨tautology, tautology', every, _⟩ := laws'.several ⟨"p", "q", by decide, left, right⟩
  exact ⟨by decide, by decide, by decide, by decide, same, laws.able_iff.mpr (by decide),
    by decide, by decide, tautology, tautology', every _ (by decide) (by decide)⟩

end Clause
end Clausal
