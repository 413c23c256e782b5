import Clausal.Proofs.Derivation.Origins
import Mathlib.Logic.Relation

set_option autoImplicit false

namespace Clausal

theorem Entry.mem_places_iff (entry : Entry) (place : Nat) :
    place ∈ entry.places ↔ .entry place ∈ entry.sources := by
  rw [Entry.places, List.mem_filterMap]
  constructor
  · intro ⟨source, listed, same⟩
    cases source with
    | input => cases same
    | entry own =>
        cases same
        exact listed
  · exact fun listed => ⟨_, listed, rfl⟩

/-- A call by which a clause is noted. -/
inductive Note where
  | input (key : Nat)
  | resolvent (key : Nat) (parents : Nat × Nat) (round : Nat)

namespace Derivation

def note (record : Derivation) : Note → Derivation
  | .input key => record.addInput key
  | .resolvent key parents round => record.addResolvent key parents round

def ofNotes (notes : List Note) : Derivation :=
  notes.foldl note {}

theorem source?_eq_entry_iff (record : Derivation) (key place : Nat) :
    record.source? key = some (.entry place) ↔ latest? key record.entries = some place := by
  unfold source?
  cases latest? key record.entries with
  | some latest => simp
  | none => simp

/-- The entry which a node stands for. There is none for the input. -/
def entryOn? (record : Derivation) (node : Source) : Option Entry :=
  node.place?.bind record.entryAt?

def keyOn? (record : Derivation) (node : Source) : Option Nat :=
  (record.entryOn? node).map Entry.key

/-- Where the edges into a node come from, each edge counted. -/
def edgesInto (record : Derivation) (node : Source) : List Source :=
  (record.entryOn? node).elim [] Entry.sources

def Edge (record : Derivation) (source target : Source) : Prop :=
  source ∈ record.edgesInto target

instance (record : Derivation) (source target : Source) : Decidable (record.Edge source target) :=
  inferInstanceAs (Decidable (source ∈ record.edgesInto target))

/-- Along edges, any number of them. -/
def Leads (record : Derivation) : Source → Source → Prop :=
  Relation.ReflTransGen record.Edge

/-- From the input to a clause of a key, and on to a node. -/
def Originates (record : Derivation) (key : Nat) (node : Source) : Prop :=
  ∃ origin, record.keyOn? origin = some key ∧ record.Edge .input origin ∧ record.Leads origin node

section

variable {record : Derivation} {source target : Source}

theorem Edge.ne_input (edge : record.Edge source target) : target ≠ .input := by
  intro same
  rw [same] at edge
  cases edge

theorem Leads.eq_input (leads : record.Leads source .input) : source = .input := by
  rcases Relation.ReflTransGen.cases_tail leads with same | ⟨_, _, edge⟩
  · exact same.symm
  · exact absurd rfl edge.ne_input

theorem edge_entry_iff (source : Source) (place : Nat) :
    record.Edge source (.entry place) ↔
      ∃ entry, record.entryAt? place = some entry ∧ source ∈ entry.sources := by
  show source ∈ (record.entryAt? place).elim [] Entry.sources ↔ _
  cases record.entryAt? place <;> simp

theorem edge_input_iff (place : Nat) :
    record.Edge .input (.entry place) ↔
      ∃ entry, record.entryAt? place = some entry ∧ entry.isInput = true := by
  simp only [edge_entry_iff, Entry.isInput, List.contains_iff_mem]

theorem edge_entries_iff (next place : Nat) :
    record.Edge (.entry next) (.entry place) ↔
      ∃ entry, record.entryAt? place = some entry ∧ next ∈ entry.places := by
  simp only [edge_entry_iff, Entry.mem_places_iff]

theorem edge_cons_iff (entry : Entry) (earlier : List Entry) :
    Edge ⟨entry :: earlier⟩ source target ↔
      Edge ⟨earlier⟩ source target ∨ target = .entry earlier.length ∧ source ∈ entry.sources := by
  cases target with
  | input => exact ⟨fun edge => absurd rfl edge.ne_input, fun edge => edge.elim id nofun⟩
  | entry place =>
      rw [edge_entry_iff, edge_entry_iff, entryAt?_cons, Source.entry.injEq]
      by_cases last : place = earlier.length
      · have absent : entryAt? ⟨earlier⟩ earlier.length = none := by simp [entryAt?]
        simp [last, absent]
      · simp [last]

theorem edge_addInput_iff (key : Nat) :
    (record.addInput key).Edge source target ↔
      record.Edge source target ∨ target = .entry record.entries.length ∧ source = .input := by
  rw [addInput, edge_cons_iff, List.mem_singleton]

theorem edge_addResolvent_iff (key : Nat) (parents : Nat × Nat) (round : Nat) :
    (record.addResolvent key parents round).Edge source target ↔
      record.Edge source target ∨ target = .entry record.entries.length ∧
        ∃ parent ∈ [parents.1, parents.2],
          (record.addResolvent key parents round).source? parent = some source := by
  have named : ∀ parent, (record.addResolvent key parents round).source? parent =
      source? ⟨⟨key, round, []⟩ :: record.entries⟩ parent := fun _ => rfl
  simp only [named]
  rw [addResolvent, edge_cons_iff, List.mem_filterMap]
  simp [or_comm]

end

theorem backward_iff (record : Derivation) :
    record.Backward ↔ ∀ next place, record.Edge (.entry next) (.entry place) → next ≤ place := by
  simp only [edge_entries_iff]
  constructor
  · exact fun backward next place ⟨entry, found, source⟩ => backward place entry found next source
  · exact fun backward place entry found next source => backward next place ⟨entry, found, source⟩

theorem Backward.note {record : Derivation} (backward : record.Backward) (note : Note) :
    (record.note note).Backward := by
  rw [backward_iff] at backward ⊢
  intro next place edge
  cases note with
  | input key =>
      rcases (edge_addInput_iff key).mp edge with before | ⟨_, impossible⟩
      · exact backward next place before
      · cases impossible
  | resolvent key parents round =>
      rcases (edge_addResolvent_iff key parents round).mp edge with before | ⟨last, _, _, named⟩
      · exact backward next place before
      · rw [source?_eq_entry_iff] at named
        cases last
        exact Nat.le_of_lt_succ (latest?_lt _ next _ named)

/-- Keys may be out of order, noted again, left out and unknown, and places are not. -/
theorem backward_ofNotes (notes : List Note) : (ofNotes notes).Backward := by
  refine List.foldlRecOn (motive := Backward) notes note ?_ fun _ backward note _ =>
    backward.note note
  intro place entry found
  cases found

section

variable {record : Derivation}

/-- The places gone back to are the entries from which edges lead on. -/
theorem leads_iff_reaches (place last : Nat) :
    record.Leads (.entry last) (.entry place) ↔ record.Reaches place last := by
  constructor
  · generalize target : Source.entry place = node
    intro leads
    induction leads generalizing place with
    | refl =>
        cases target
        exact .here _
    | @tail middle node before edge ih =>
        cases middle with
        | input => cases Leads.eq_input before
        | entry next =>
            rw [← target] at edge
            obtain ⟨entry, found, source⟩ := (edge_entries_iff next place).mp edge
            exact .back place next last entry found source (ih next rfl)
  · intro reaches
    induction reaches with
    | here => exact .refl
    | back place next last entry found source _ ih =>
        exact ih.tail ((edge_entries_iff next place).mpr ⟨entry, found, source⟩)

theorem originates_iff_dependsOn (key place : Nat) :
    record.Originates key (.entry place) ↔ record.DependsOn place key := by
  constructor
  · intro ⟨origin, named, edge, leads⟩
    cases origin with
    | input => cases named
    | entry last =>
        obtain ⟨entry, found, input⟩ := (edge_input_iff last).mp edge
        refine ⟨last, entry, (leads_iff_reaches place last).mp leads, found, input, ?_⟩
        simpa [keyOn?, entryOn?, Source.place?, found] using named
  · intro ⟨last, entry, reaches, found, input, named⟩
    refine ⟨.entry last, ?_, (edge_input_iff last).mpr ⟨entry, found, input⟩,
      (leads_iff_reaches place last).mpr reaches⟩
    simp [keyOn?, entryOn?, Source.place?, found, named]

theorem not_originates_input (key : Nat) : ¬ record.Originates key .input := by
  intro ⟨origin, named, _, leads⟩
  rw [leads.eq_input] at named
  cases named

end

/-- The wanted nodes are the current ones of the keys. A key which was left out stands for
the input, where nothing originates. -/
theorem mem_origins_iff_originates (record : Derivation) (keys : List Nat) (key : Nat)
    (backward : record.Backward) :
    key ∈ record.origins keys ↔ ∃ wanted ∈ keys, ∃ current,
      record.source? wanted = some current ∧ record.Originates key current := by
  rw [mem_origins_iff record keys key backward]
  refine exists_congr fun wanted => and_congr_right fun _ => ?_
  constructor
  · intro ⟨place, latest, depends⟩
    exact ⟨.entry place, (source?_eq_entry_iff record wanted place).mpr latest,
      (originates_iff_dependsOn key place).mpr depends⟩
  · intro ⟨current, named, originates⟩
    cases current with
    | input => exact absurd originates (not_originates_input key)
    | entry place =>
        exact ⟨place, (source?_eq_entry_iff record wanted place).mp named,
          (originates_iff_dependsOn key place).mp originates⟩

/-- Any account of the origins, in whichever order and with whichever repeats, lists them
once it is put in order. -/
theorem distinct_eq_origins (record : Derivation) (keys found : List Nat)
    (same : ∀ key, key ∈ found ↔ key ∈ record.origins keys) :
    Ordered.distinct found = record.origins keys := by
  refine (Ordered.sort_eq_sort_iff _ _).mpr ?_
  refine (List.perm_ext_iff_of_nodup (Ordered.nodup_eraseDups _) (Ordered.nodup_eraseDups _)).mpr ?_
  intro key
  rw [List.mem_eraseDups, List.mem_eraseDups, same, origins, Ordered.mem_distinct]

theorem originates_of_isInput (record : Derivation) (key : Nat)
    (input : record.isInput key = true) :
    ∃ current, record.source? key = some current ∧ record.Originates key current := by
  rw [isInput, Option.any_eq_true] at input
  obtain ⟨entry, found, isInput⟩ := input
  obtain ⟨place, latest, located⟩ := Option.bind_eq_some_iff.mp found
  refine ⟨.entry place, (source?_eq_entry_iff record key place).mpr latest, ?_⟩
  obtain ⟨own, known, named⟩ := entryAt?_of_latest? record key place latest
  rw [located, Option.some.injEq] at known
  refine (originates_iff_dependsOn key place).mpr ⟨place, entry, .here place, located, isInput, ?_⟩
  rw [known, named]

end Derivation
end Clausal
