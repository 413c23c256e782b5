import Clausal.ClauseSet

set_option autoImplicit false

namespace Clausal

/-- Items read one by one, each from what is written for it. -/
theorem mapM_eq_ok {ε α β γ : Type} (read : α → Except ε β) (write : γ → α) (value : γ → β)
    (fits : γ → Prop)
    (reads : ∀ source result, read source = .ok result ↔
      ∃ item, fits item ∧ source = write item ∧ result = value item)
    (sources : List α) (results : List β) :
    sources.mapM read = .ok results ↔
      ∃ items : List γ, (∀ item ∈ items, fits item) ∧ sources = items.map write ∧
        results = items.map value := by
  induction sources generalizing results with
  | nil =>
      rw [List.mapM_nil]
      constructor
      · intro done
        cases done
        exact ⟨[], by simp⟩
      · intro ⟨items, _, nothing, same⟩
        have empty : items = [] := List.map_eq_nil_iff.mp nothing.symm
        rw [same, empty]
        rfl
  | cons source rest ih =>
      simp only [List.mapM_cons, bind_eq_ok, reads, ih]
      constructor
      · intro ⟨_, ⟨item, fit, written, valued⟩, _, ⟨items, each, rests, values⟩, done⟩
        cases done
        exact ⟨item :: items, List.forall_mem_cons.mpr ⟨fit, each⟩,
          by simp [written, valued, rests, values]⟩
      · intro ⟨items, each, written, valued⟩
        cases items with
        | nil => cases written
        | cons item items =>
            obtain ⟨first, others⟩ := List.forall_mem_cons.mp each
            obtain ⟨head, tail⟩ := List.cons_eq_cons.mp written
            exact ⟨value item, ⟨item, first, head, rfl⟩, items.map value,
              ⟨items, others, tail, rfl⟩, valued ▸ rfl⟩

namespace Literal

theorem ofFormula_eq_ok (node : Formula) (literal : Literal) :
    ofFormula node = .ok literal ↔
      literal.atom.isEmpty = false ∧ node = literal.toFormula := by
  constructor
  · intro read
    unfold ofFormula at read
    rw [bind_eq_ok] at read
    obtain ⟨_, faultless, read⟩ := read
    split at read
    · rename_i name
      cases read
      rw [failWith_eq_ok, Formula.fault?] at faultless
      exact ⟨by simpa using faultless, rfl⟩
    · rename_i name
      rw [bind_eq_ok] at read
      obtain ⟨_, named, read⟩ := read
      cases read
      rw [failWith_eq_ok, Formula.fault?] at named
      exact ⟨by simpa using named, rfl⟩
    · cases read
  · intro ⟨named, written⟩
    rw [written]
    exact ofFormula_toFormula literal named

end Literal

def disjunctionOf (literals : List Literal) : Formula :=
  .or (literals.map Literal.toFormula)

/-- What a disjunction has to be of to be read: some literals, all with a name. -/
def Legible (literals : List Literal) : Prop :=
  literals ≠ [] ∧ ∀ literal ∈ literals, literal.atom.isEmpty = false

theorem mapM_literal_eq_ok (nodes : List Formula) (literals : List Literal) :
    nodes.mapM Literal.ofFormula = .ok literals ↔
      (∀ literal ∈ literals, literal.atom.isEmpty = false) ∧
        nodes = literals.map Literal.toFormula := by
  rw [mapM_eq_ok Literal.ofFormula Literal.toFormula id fun literal =>
    literal.atom.isEmpty = false]
  · simp
  · simp [Literal.ofFormula_eq_ok]

theorem Clause.ofFormula_eq_ok (node : Formula) (clause : Clause) :
    ofFormula node = .ok clause ↔
      ∃ literals, Legible literals ∧ node = disjunctionOf literals ∧
        clause = ofList literals := by
  constructor
  · intro read
    unfold ofFormula at read
    rw [bind_eq_ok] at read
    obtain ⟨_, faultless, read⟩ := read
    split at read
    · rename_i disjuncts
      rw [bind_eq_ok] at read
      obtain ⟨literals, each, done⟩ := read
      obtain ⟨named, written⟩ := (mapM_literal_eq_ok disjuncts literals).mp each
      cases done
      refine ⟨literals, ⟨?_, named⟩, congrArg Formula.or written, rfl⟩
      intro empty
      rw [written, empty, failWith_eq_ok] at faultless
      cases faultless
    · cases read
  · intro ⟨literals, ⟨inhabited, named⟩, written, same⟩
    have each := (mapM_literal_eq_ok (literals.map Literal.toFormula) literals).mpr ⟨named, rfl⟩
    have faultless : (disjunctionOf literals).fault? = none := by
      cases literals with
      | nil => exact absurd rfl inhabited
      | cons literal rest => rfl
    rw [written, same]
    unfold ofFormula
    rw [faultless]
    change (literals.map Literal.toFormula).mapM Literal.ofFormula >>= _ = _
    rw [each]
    rfl

theorem ClauseSet.ofFormula_eq_ok (node : Formula) (set : ClauseSet) :
    ofFormula node = .ok set ↔
      ∃ lists : List (List Literal), (∀ literals ∈ lists, Legible literals) ∧
        node = .and (lists.map disjunctionOf) ∧ set = ofList (lists.map Clause.ofList) := by
  have each := mapM_eq_ok Clause.ofFormula disjunctionOf Clause.ofList Legible
    Clause.ofFormula_eq_ok
  constructor
  · intro read
    unfold ofFormula at read
    split at read
    · rename_i conjuncts
      rw [bind_eq_ok] at read
      obtain ⟨clauses, found, done⟩ := read
      obtain ⟨lists, legible, written, valued⟩ := (each conjuncts clauses).mp found
      cases done
      exact ⟨lists, legible, congrArg Formula.and written, congrArg ofList valued⟩
    · cases read
  · intro ⟨lists, legible, written, same⟩
    have found := (each (lists.map disjunctionOf) (lists.map Clause.ofList)).mpr
      ⟨lists, legible, rfl, rfl⟩
    rw [written, same, ofFormula, found]
    rfl

end Clausal
