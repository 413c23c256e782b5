import Clausal.Derivation

set_option autoImplicit false

namespace Clausal.Derivation

/-- Places reached by going from entries to their sources, any number of times. -/
inductive Reaches (record : Derivation) : Nat → Nat → Prop where
  | here (place : Nat) : Reaches record place place
  | back (place next last : Nat) (entry : Entry) (found : record.entryAt? place = some entry)
      (source : next ∈ entry.places) (rest : Reaches record next last) :
      Reaches record place last

/-- No source of an entry is later than the entry. -/
def Backward (record : Derivation) : Prop :=
  ∀ place entry, record.entryAt? place = some entry → ∀ next ∈ entry.places, next ≤ place

/-- The keys of the input clauses which a place depends on. -/
def DependsOn (record : Derivation) (place key : Nat) : Prop :=
  ∃ last entry, record.Reaches place last ∧ record.entryAt? last = some entry ∧
    entry.isInput = true ∧ entry.key = key

theorem entryAt?_lt (record : Derivation) (place : Nat) (entry : Entry)
    (found : record.entryAt? place = some entry) : place < record.entries.length := by
  obtain ⟨inside, _⟩ := List.getElem?_eq_some_iff.mp found
  rwa [List.length_reverse] at inside

theorem DependsOn.lt {record : Derivation} {place key : Nat}
    (depends : record.DependsOn place key) : place < record.entries.length := by
  obtain ⟨last, entry, reaches, found, _⟩ := depends
  cases reaches with
  | here => exact entryAt?_lt record place entry found
  | back _ next _ own found => exact entryAt?_lt record place own found

section

variable {entry : Entry} {earlier : List Entry}

theorem entryAt?_cons_of_lt (place : Nat) (before : place < earlier.length) :
    entryAt? ⟨entry :: earlier⟩ place = entryAt? ⟨earlier⟩ place := by
  rw [entryAt?_cons, if_neg (by omega)]

theorem entryAt?_cons_last : entryAt? ⟨entry :: earlier⟩ earlier.length = some entry := by
  rw [entryAt?_cons, if_pos rfl]

theorem Backward.tail (backward : Backward ⟨entry :: earlier⟩) : Backward ⟨earlier⟩ := by
  intro place found located
  have inside := entryAt?_lt ⟨earlier⟩ place found located
  rw [← entryAt?_cons_of_lt place inside] at located
  exact backward place found located

theorem Reaches.le {record : Derivation} {place last : Nat} (backward : record.Backward)
    (reaches : record.Reaches place last) : last ≤ place := by
  induction reaches with
  | here => exact Nat.le_refl _
  | back place next last entry found source _ ih =>
      exact Nat.le_trans ih (backward place entry found next source)

/-- An entry is nothing to the places before it. -/
theorem reaches_cons_iff_of_lt (backward : Backward ⟨entry :: earlier⟩) (place last : Nat)
    (before : place < earlier.length) :
    Reaches ⟨entry :: earlier⟩ place last ↔ Reaches ⟨earlier⟩ place last := by
  constructor
  · intro reaches
    induction reaches with
    | here => exact .here _
    | back place next last own found source _ ih =>
        have inside := backward place own found next source
        rw [entryAt?_cons_of_lt place before] at found
        exact .back place next last own found source (ih (by omega))
  · intro reaches
    induction reaches with
    | here => exact .here _
    | back place next last own found source _ ih =>
        have whole : entryAt? ⟨entry :: earlier⟩ place = some own := by
          rw [entryAt?_cons_of_lt place before, found]
        have inside := backward place own whole next source
        exact .back place next last own whole source (ih (by omega))

theorem reaches_cons_last_iff (backward : Backward ⟨entry :: earlier⟩) (last : Nat) :
    Reaches ⟨entry :: earlier⟩ earlier.length last ↔ last = earlier.length ∨
      ∃ next ∈ entry.places, next < earlier.length ∧ Reaches ⟨earlier⟩ next last := by
  constructor
  · generalize start : earlier.length = place
    intro reaches
    induction reaches with
    | here => exact Or.inl rfl
    | back place next last own found source rest ih =>
        have inside := backward place own found next source
        rw [← start, entryAt?_cons_last, Option.some.injEq] at found
        by_cases again : next = place
        · rcases ih (start.trans again.symm) with same | later
          · exact Or.inl (same.trans again)
          · rw [again] at later
            exact Or.inr later
        · have before : next < earlier.length := by omega
          rw [← found] at source
          exact Or.inr ⟨next, source, start ▸ before,
            (reaches_cons_iff_of_lt backward next last before).mp rest⟩
  · intro either
    rcases either with same | ⟨next, source, before, reaches⟩
    · rw [same]
      exact .here _
    · exact .back _ next last entry entryAt?_cons_last source
        ((reaches_cons_iff_of_lt backward next last before).mpr reaches)

theorem dependsOn_cons_iff_of_lt (backward : Backward ⟨entry :: earlier⟩) (place key : Nat)
    (before : place < earlier.length) :
    DependsOn ⟨entry :: earlier⟩ place key ↔ DependsOn ⟨earlier⟩ place key := by
  refine exists_congr fun last => exists_congr fun own => ?_
  rw [reaches_cons_iff_of_lt backward place last before]
  refine and_congr_right fun reaches => ?_
  have inside := reaches.le backward.tail
  rw [entryAt?_cons_of_lt last (by omega)]

theorem dependsOn_cons_last_iff (backward : Backward ⟨entry :: earlier⟩) (key : Nat) :
    DependsOn ⟨entry :: earlier⟩ earlier.length key ↔
      (entry.isInput = true ∧ entry.key = key) ∨
        ∃ next ∈ entry.places, DependsOn ⟨earlier⟩ next key := by
  constructor
  · intro ⟨last, own, reaches, found, input, named⟩
    rcases (reaches_cons_last_iff backward last).mp reaches with same | ⟨next, source, before, rest⟩
    · rw [same, entryAt?_cons_last, Option.some.injEq] at found
      rw [← found] at input named
      exact Or.inl ⟨input, named⟩
    · have inside := rest.le backward.tail
      rw [entryAt?_cons_of_lt last (by omega)] at found
      exact Or.inr ⟨next, source, last, own, rest, found, input, named⟩
  · intro either
    rcases either with ⟨input, named⟩ | ⟨next, source, depends⟩
    · exact ⟨earlier.length, entry, .here _, entryAt?_cons_last, input, named⟩
    · have before : next < earlier.length := depends.lt
      obtain ⟨last, own, reaches, found, input, named⟩ :=
        (dependsOn_cons_iff_of_lt backward next key before).mpr depends
      exact ⟨last, own, .back _ next last entry entryAt?_cons_last source reaches, found, input,
        named⟩

end

theorem mem_inputKeys_iff (entries : List Entry) (wanted : List Nat) (key : Nat)
    (backward : Backward ⟨entries⟩) :
    key ∈ inputKeys entries wanted ↔ ∃ place ∈ wanted, DependsOn ⟨entries⟩ place key := by
  induction entries generalizing wanted with
  | nil =>
      simp only [inputKeys, List.not_mem_nil, false_iff]
      intro ⟨place, _, depends⟩
      exact Nat.not_lt_zero _ depends.lt
  | cons entry earlier ih =>
      have before := dependsOn_cons_iff_of_lt backward
      have last := dependsOn_cons_last_iff backward key
      rw [inputKeys]
      split
      · rename_i latest
        rw [List.contains_iff_mem] at latest
        rw [List.mem_append, ih _ backward.tail]
        constructor
        · intro found
          rcases found with own | ⟨place, source, depends⟩
          · split at own
            · rename_i input
              exact ⟨_, latest, last.mpr (Or.inl ⟨input, (List.mem_singleton.mp own).symm⟩)⟩
            · cases own
          · rcases List.mem_append.mp source with next | direct
            · exact ⟨_, latest, last.mpr (Or.inr ⟨place, next, depends⟩)⟩
            · exact ⟨place, direct, (before place key depends.lt).mpr depends⟩
        · intro ⟨place, member, depends⟩
          have inside : place < earlier.length + 1 := depends.lt
          by_cases same : place = earlier.length
          · rw [same] at depends
            rcases last.mp depends with ⟨input, named⟩ | ⟨next, source, depends⟩
            · rw [if_pos input, named]
              exact Or.inl (List.mem_singleton_self key)
            · exact Or.inr ⟨next, List.mem_append_left _ source, depends⟩
          · refine Or.inr ⟨place, List.mem_append_right _ member, ?_⟩
            exact (before place key (by omega)).mp depends
      · rename_i skipped
        rw [List.contains_iff_mem] at skipped
        rw [ih _ backward.tail]
        refine exists_congr fun place => and_congr_right fun member => ?_
        constructor
        · intro depends
          exact (before place key depends.lt).mpr depends
        · intro depends
          have inside : place < earlier.length + 1 := depends.lt
          have apart : place ≠ earlier.length := fun same => skipped (same ▸ member)
          exact (before place key (by omega)).mp depends

theorem mem_origins_iff (record : Derivation) (keys : List Nat) (key : Nat)
    (backward : record.Backward) :
    key ∈ record.origins keys ↔ ∃ wanted ∈ keys, ∃ place,
      latest? wanted record.entries = some place ∧ record.DependsOn place key := by
  rw [origins, Ordered.mem_distinct, mem_inputKeys_iff _ _ _ backward]
  constructor
  · intro ⟨place, listed, depends⟩
    obtain ⟨wanted, member, named⟩ := List.mem_filterMap.mp listed
    exact ⟨wanted, member, place, named, depends⟩
  · intro ⟨wanted, member, place, named, depends⟩
    exact ⟨place, List.mem_filterMap.mpr ⟨wanted, member, named⟩, depends⟩

theorem origins_pairwise (record : Derivation) (keys : List Nat) :
    (record.origins keys).Pairwise (· < ·) := by
  refine (Ordered.distinct_pairwise _).imp ?_
  intro key other before
  exact Nat.compare_eq_lt.mp (Ordering.isLT_iff_eq_lt.mp before)

end Clausal.Derivation
