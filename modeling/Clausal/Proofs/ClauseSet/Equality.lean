import Clausal.Proofs.ClauseSet.Index

set_option autoImplicit false

namespace Clausal.ClauseSet

/-- The canonical forms of the clauses, in the order of their keys. -/
def forms (set : ClauseSet) : List (List Literal) :=
  set.toList.map Clause.canonical

theorem length_forms (set : ClauseSet) : set.forms.length = set.size := by
  rw [forms, List.length_map, length_toList]

theorem mem_forms_iff (set : ClauseSet) (form : List Literal) :
    form ∈ set.forms ↔ ∃ clause ∈ set.toList, clause.canonical = form :=
  List.mem_map

theorem canonical_mem_forms (set : ClauseSet) (clause : Clause) (member : clause ∈ set.toList) :
    clause.canonical ∈ set.forms :=
  List.mem_map_of_mem member

theorem sameAs_iff (set other : ClauseSet) :
    set.sameAs other = true ↔
      ∀ form, set.index.contains form = true ↔ other.index.contains form = true := by
  rw [sameAs, Std.TreeSet.beq_iff_equiv]
  constructor
  · intro equivalent form
    rw [equivalent.contains_eq]
  · intro same
    exact Std.TreeSet.Equiv.of_forall_contains_eq fun form => Bool.eq_iff_iff.mpr (same form)

section

variable {set other : ClauseSet}

theorem Valid.nodup_forms (valid : set.Valid) : set.forms.Nodup :=
  List.pairwise_map.mpr valid.apart

theorem Valid.contains_iff_mem_forms (valid : set.Valid) (clause : Clause) :
    set.contains clause = true ↔ clause.canonical ∈ set.forms := by
  rw [valid.contains_iff, mem_forms_iff]

theorem Valid.sameAs_iff_perm (valid : set.Valid) (valid' : other.Valid) :
    set.sameAs other = true ↔ set.forms.Perm other.forms := by
  rw [sameAs_iff, List.perm_ext_iff_of_nodup valid.nodup_forms valid'.nodup_forms]
  simp only [valid.indexed, valid'.indexed, mem_forms_iff]

theorem Valid.sameAs_iff_contains (valid : set.Valid) (valid' : other.Valid) :
    set.sameAs other = true ↔
      (∀ clause ∈ set.toList, other.contains clause = true) ∧
        ∀ clause ∈ other.toList, set.contains clause = true := by
  rw [sameAs_iff]
  constructor
  · intro same
    constructor
    · intro clause member
      exact (same _).mp ((valid.indexed _).mpr ⟨clause, member, rfl⟩)
    · intro clause member
      exact (same _).mpr ((valid'.indexed _).mpr ⟨clause, member, rfl⟩)
  · intro ⟨forth, back⟩ form
    constructor
    · intro found
      obtain ⟨clause, member, rfl⟩ := (valid.indexed form).mp found
      exact forth clause member
    · intro found
      obtain ⟨clause, member, rfl⟩ := (valid'.indexed form).mp found
      exact back clause member

theorem exists_rearranged (same : set.forms.Perm other.forms) (clause : Clause)
    (member : clause ∈ set.toList) :
    ∃ found ∈ other.toList, found.canonical = clause.canonical :=
  (other.mem_forms_iff _).mp (same.subset (set.canonical_mem_forms clause member))

theorem size_eq_of_perm (same : set.forms.Perm other.forms) : other.size = set.size := by
  rw [← length_forms, ← length_forms, same.length_eq]

end

end Clausal.ClauseSet
