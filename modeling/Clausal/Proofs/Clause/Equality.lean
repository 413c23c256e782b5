import Clausal.Proofs.Clause.Resolution
import Mathlib.Data.List.Induction

set_option autoImplicit false

namespace Clausal

theorem Literal.compare_eq_lt_iff (literal other : Literal) :
    compare literal other = .lt ↔
      literal.atom < other.atom ∨
        literal.atom = other.atom ∧ literal.negated = false ∧ other.negated = true := by
  have signs : ∀ sign sign' : Bool,
      compare sign sign' = .lt ↔ sign = false ∧ sign' = true := by
    decide
  have atoms : compare literal.atom other.atom = .lt ↔ literal.atom < other.atom :=
    compareOfLessAndEq_eq_lt
  change (compare literal.atom other.atom).then (compare literal.negated other.negated) = .lt ↔ _
  rw [Ordering.then_eq_lt, atoms, signs, Std.compare_eq_iff_eq]

theorem Ordered.eraseDups_pairwise {α : Type} [BEq α] [LawfulBEq α] (values : List α) :
    values.eraseDups.Pairwise fun first later => values.idxOf first < values.idxOf later := by
  -- The last value is kept if none before is equal to it.
  induction values using List.reverseRecOn with
  | nil => exact List.Pairwise.nil
  | append_singleton values last ih =>
      have before : (values.eraseDups).Pairwise fun first later =>
          (values ++ [last]).idxOf first < (values ++ [last]).idxOf later := by
        refine ih.imp_of_mem fun {first later} member member' less => ?_
        rw [List.idxOf_append_of_mem (List.mem_eraseDups.mp member),
          List.idxOf_append_of_mem (List.mem_eraseDups.mp member')]
        exact less
      rw [List.eraseDups_append]
      by_cases known : last ∈ values
      · simpa [List.removeAll, known] using before
      · have new : ([last].removeAll values).eraseDups = [last] := by
          simp [List.removeAll, known, List.eraseDups_cons]
        rw [new]
        refine List.pairwise_append.mpr ⟨before, List.pairwise_singleton _ last, ?_⟩
        intro first member later member'
        have inside := List.mem_eraseDups.mp member
        rw [List.mem_singleton.mp member', List.idxOf_append_of_mem inside,
          List.idxOf_append_of_notMem known]
        exact Nat.lt_add_right _ (List.idxOf_lt_length_of_mem inside)

namespace Clause

/-- What is kept of a list of literals: all of them, each once and where it is first seen. -/
structure Keeps (literals kept : List Literal) : Prop where
  mem_iff : ∀ literal, literal ∈ kept ↔ literal ∈ literals
  distinct : kept.Nodup
  inOrder : kept.Pairwise fun first later => literals.idxOf first < literals.idxOf later

theorem keeps_ofList (literals : List Literal) : Keeps literals (ofList literals).literals where
  mem_iff literal := mem_ofList literal literals
  distinct := nodup_ofList literals
  inOrder := Ordered.eraseDups_pairwise literals

theorem canonical_ofList (literals : List Literal) :
    (ofList literals).canonical = Ordered.distinct literals := rfl

theorem sameAs_ofList_iff_canonical (literals others : List Literal) :
    (ofList literals).sameAs (ofList others) = true ↔
      (ofList literals).canonical = (ofList others).canonical :=
  sameAs_iff_canonical_eq _ _ (nodup_ofList literals)

theorem canonical_ofList_eq_iff (literals others : List Literal) :
    (ofList literals).canonical = (ofList others).canonical ↔
      ∀ literal, literal ∈ literals ↔ literal ∈ others := by
  constructor
  · intro same literal
    rw [← mem_ofList, ← mem_ofList literal others]
    exact mem_iff_of_canonical_eq _ _ literal same
  · intro same
    apply canonical_eq_of_mem_iff _ _ (nodup_ofList literals) (nodup_ofList others)
    intro literal
    rw [mem_ofList, mem_ofList, same]

theorem canonical_ofList_pairwise (literals : List Literal) :
    (ofList literals).canonical.Pairwise fun literal later =>
      literal.atom < later.atom ∨
        literal.atom = later.atom ∧ literal.negated = false ∧ later.negated = true := by
  rw [canonical_ofList]
  refine (Ordered.distinct_pairwise literals).imp fun {literal later} less => ?_
  exact (Literal.compare_eq_lt_iff literal later).mp (Ordering.isLT_iff_eq_lt.mp less)

/-- The one-sided test is an equivalence, and so is equality of the sorted forms; both come to
having the same literals. -/
theorem sameAs_ofList (literals others further : List Literal) :
    let clause := ofList literals
    let other := ofList others
    (clause.sameAs other = true ↔ other.sameAs clause = true) ∧
      (clause.sameAs other = true ↔ ∀ literal, literal ∈ literals ↔ literal ∈ others) ∧
      (clause.sameAs other = true ↔ clause.canonical = other.canonical) ∧
      (clause.canonical.Pairwise fun literal later =>
        literal.atom < later.atom ∨
          literal.atom = later.atom ∧ literal.negated = false ∧ later.negated = true) ∧
      (clause.sameAs other = true → other.sameAs (ofList further) = true →
        clause.sameAs (ofList further) = true) ∧
      Keeps literals clause.literals := by
  intro clause other
  have same := sameAs_ofList_iff_canonical literals others
  refine ⟨?symmetric, same.trans (canonical_ofList_eq_iff literals others), same,
    canonical_ofList_pairwise literals, ?transitive, keeps_ofList literals⟩
  case symmetric => rw [same, sameAs_ofList_iff_canonical others literals, eq_comm]
  case transitive =>
    rw [same, sameAs_ofList_iff_canonical others further,
      sameAs_ofList_iff_canonical literals further]
    exact Eq.trans

/-- Three ways to write `p || !q`, of which the last two have a literal more than once. -/
theorem sameAs_ofList_repeated :
    let plain := ofList [⟨"p", false⟩, ⟨"q", true⟩]
    let turned := ofList [⟨"q", true⟩, ⟨"p", false⟩, ⟨"q", true⟩]
    let repeated := ofList [⟨"p", false⟩, ⟨"p", false⟩, ⟨"q", true⟩]
    plain.sameAs turned = true ∧ turned.sameAs repeated = true ∧ plain.sameAs repeated = true ∧
      turned.literals = [⟨"q", true⟩, ⟨"p", false⟩] ∧ turned.canonical = plain.literals := by
  intro plain turned repeated
  have laws := sameAs_ofList [⟨"p", false⟩, ⟨"q", true⟩]
    [⟨"q", true⟩, ⟨"p", false⟩, ⟨"q", true⟩] [⟨"p", false⟩, ⟨"p", false⟩, ⟨"q", true⟩]
  obtain ⟨_, _, _, _, transitive, _⟩ := laws
  have first : plain.sameAs turned = true := by decide
  have second : turned.sameAs repeated = true := by decide
  exact ⟨first, second, transitive first second, by decide, by decide⟩

end Clause
end Clausal
