import Clausal.Proofs.Clause.Resolution
import Clausal.Proofs.Derivation.Origins
import Clausal.Proofs.Saturation.Round

set_option autoImplicit false

namespace Clausal

namespace Derivation

theorem latest?_cons (key : Nat) (entry : Entry) (earlier : List Entry) :
    latest? key (entry :: earlier) =
      if entry.key = key then some earlier.length else latest? key earlier :=
  rfl

theorem inputs_noted (count : Nat) :
    ((List.range count).foldl addInput {}).entries.length = count ∧ ∀ key, key < count →
      latest? key ((List.range count).foldl addInput {}).entries = some key ∧
        ((List.range count).foldl addInput {}).entryAt? key = some ⟨key, 0, [.input]⟩ := by
  induction count with
  | zero => exact ⟨rfl, fun key impossible => absurd impossible (Nat.not_lt_zero key)⟩
  | succ count ih =>
      obtain ⟨length, before⟩ := ih
      rw [List.range_succ, List.foldl_append]
      refine ⟨congrArg (· + 1) length, ?_⟩
      intro key inside
      simp only [List.foldl_cons, List.foldl_nil, addInput, latest?_cons, entryAt?_cons]
      rw [length]
      by_cases last : count = key
      · simp [last]
      · rw [if_neg last, if_neg (fun same => last same.symm)]
        exact before key (by omega)

theorem addResolvent_eq (record : Derivation) (key first second round : Nat)
    (left : latest? first record.entries = some first) (newer : first ≠ key)
    (right : latest? second record.entries = some second) (newer' : second ≠ key) :
    record.addResolvent key (first, second) round =
      ⟨⟨key, round, [.entry second, .entry first]⟩ :: record.entries⟩ := by
  simp [addResolvent, source?, latest?_cons, newer.symm, newer'.symm, left, right]

end Derivation

namespace Engine

/-- What the entry of a key may be: that of an input clause, these being the first,
or that of the resolvent of two clauses which were there before it. -/
inductive Noted (inputs : Nat) (set : ClauseSet) (key : Nat) : Entry → Prop where
  | input (given : key < inputs) : Noted inputs set key ⟨key, 0, [.input]⟩
  | resolvent (first second round : Nat) (clause other : Clause) (added : inputs ≤ key)
      (ordered : first ≤ second) (before : second < key)
      (left : set.get? first = some clause) (right : set.get? second = some other)
      (able : clause.canResolveWith other = true)
      (resolved : set.get? key = some (clause.resolveWith other)) :
      Noted inputs set key ⟨key, round, [.entry second, .entry first]⟩

theorem Noted.mono {inputs key : Nat} {set later : ClauseSet} {entry : Entry}
    (noted : Noted inputs set key entry) (kept : set.toList <+: later.toList) :
    Noted inputs later key entry := by
  have still := ClauseSet.get?_of_kept kept
  cases noted with
  | input given => exact .input given
  | resolvent first second round clause other added ordered before left right able resolved =>
      exact .resolvent first second round clause other added ordered before
        (still first clause left) (still second other right) able (still key _ resolved)

/-- Keys, places and clauses agree: the entry of each key stands at the place of the
same number and tells how its clause was obtained. -/
structure Recorded (initial set : ClauseSet) (record : Derivation) : Prop where
  kept : initial.toList <+: set.toList
  length : record.entries.length = set.size
  named : ∀ key, key < set.size → Derivation.latest? key record.entries = some key
  noted : ∀ key, key < set.size →
    ∃ entry, record.entryAt? key = some entry ∧ Noted initial.size set key entry

theorem recorded_start (set : ClauseSet) :
    Recorded set set ((List.range set.size).foldl Derivation.addInput {}) := by
  obtain ⟨length, known⟩ := Derivation.inputs_noted set.size
  refine ⟨List.prefix_refl _, length, fun key inside => (known key inside).1, ?_⟩
  intro key inside
  exact ⟨_, (known key inside).2, .input inside⟩

theorem Recorded.addResolvent {initial set : ClauseSet} {record : Derivation}
    (recorded : Recorded initial set record) (first second round : Nat) (clause other : Clause)
    (ordered : first ≤ second) (left : set.get? first = some clause)
    (right : set.get? second = some other) (able : clause.canResolveWith other = true)
    (proper : (clause.resolveWith other).isTautology = false)
    (fresh : set.contains (clause.resolveWith other) = false) :
    Recorded initial (set.insert (clause.resolveWith other)).2
      (record.addResolvent set.size (first, second) round) := by
  have inside := set.get?_lt second other right
  have added := ClauseSet.toList_insert set _ proper fresh
  have grown : set.toList <+: (set.insert (clause.resolveWith other)).2.toList :=
    ⟨_, added.symm⟩
  have size : (set.insert (clause.resolveWith other)).2.size = set.size + 1 :=
    ClauseSet.size_of_append added
  rw [Derivation.addResolvent_eq record set.size first second round
    (recorded.named first (by omega)) (by omega) (recorded.named second inside) (by omega)]
  constructor
  · exact recorded.kept.trans grown
  · rw [size]
    exact congrArg (· + 1) recorded.length
  · intro key within
    rw [Derivation.latest?_cons]
    dsimp only
    by_cases last : set.size = key
    · rw [if_pos last, recorded.length, last]
    · rw [if_neg last]
      exact recorded.named key (by omega)
  · intro key within
    rw [Derivation.entryAt?_cons, recorded.length]
    by_cases last : key = set.size
    · rw [if_pos last, last]
      refine ⟨_, rfl, .resolvent first second round clause other ?_ ordered inside ?_ ?_ able ?_⟩
      · exact ClauseSet.size_le_of_kept recorded.kept
      · exact ClauseSet.get?_of_kept grown first clause left
      · exact ClauseSet.get?_of_kept grown second other right
      · rw [ClauseSet.get?_eq, added, ← ClauseSet.length_toList, List.getElem?_concat_length]
    · rw [if_neg last]
      obtain ⟨entry, found, noted⟩ := recorded.noted key (by omega)
      exact ⟨entry, found, noted.mono grown⟩

theorem Recorded.backward {initial set : ClauseSet} {record : Derivation}
    (recorded : Recorded initial set record) : record.Backward := by
  intro place entry found next source
  have inside := Derivation.entryAt?_lt record place entry found
  rw [recorded.length] at inside
  obtain ⟨own, known, noted⟩ := recorded.noted place inside
  rw [known, Option.some.injEq] at found
  rw [← found] at source
  cases noted with
  | input given => cases source
  | resolvent first second round clause other added ordered before left right able resolved =>
      have parent : next = second ∨ next = first := by
        simpa [Entry.places, Source.place?] using source
      omega

/-- A run on its way from an initial set, which ends only in a complementary pair. -/
structure Derived (initial : ClauseSet) (engine : Engine) : Prop where
  recorded : Recorded initial engine.set engine.derivation
  complementary : ∀ pair, engine.state = .conflict pair →
    pair.1 ≤ pair.2 ∧ Scan.isConflict engine.set pair = true

theorem derived_start (config : Config) (set : ClauseSet) : Derived set (start config set) where
  recorded := recorded_start set
  complementary _ impossible := by cases impossible

/-- Additions are of resolvents of the set as it was when the round began, and leave
the clauses of that set where they are. -/
theorem Derived.foldl_addStaged {initial : ClauseSet} {engine : Engine}
    (derived : Derived initial engine) (active : engine.state = .active) (staged : List Staged)
    (offered : ∀ entry ∈ staged, entry.parents.1 ≤ entry.parents.2 ∧
      Scan.resolvent? engine.set entry.parents = some entry) :
    Derived initial (staged.foldl addStaged engine) := by
  have whole : Derived initial (staged.foldl addStaged engine) ∧
      (staged.foldl addStaged engine).state = .active ∧
        engine.set.toList <+: (staged.foldl addStaged engine).set.toList := by
    refine List.foldlRecOn (motive := fun later => Derived initial later ∧
      later.state = .active ∧ engine.set.toList <+: later.set.toList) staged addStaged
      ⟨derived, active, List.prefix_refl _⟩ ?_
    intro later ⟨derived, active, grown⟩ entry member
    rcases addStaged_cases later entry with ⟨_, same⟩ | ⟨proper, fresh, added⟩
    · rw [same]
      exact ⟨derived, active, grown⟩
    · obtain ⟨ordered, made⟩ := offered entry member
      obtain ⟨_, clause, other, left, right, able, resolved, _⟩ :=
        (Scan.resolvent?_eq_some_iff engine.set entry.parents entry).mp made
      have left' := ClauseSet.get?_of_kept grown _ clause left
      have right' := ClauseSet.get?_of_kept grown _ other right
      rw [added]
      rw [← resolved] at proper fresh ⊢
      refine ⟨⟨?_, ?_⟩, active, ?_⟩
      · exact derived.recorded.addResolvent _ _ later.rounds clause other ordered left' right' able
          proper fresh
      · intro pair impossible
        rw [active] at impossible
        cases impossible
      · rw [ClauseSet.toList_insert _ _ proper fresh]
        exact grown.trans (List.prefix_append _ _)
  exact whole.1

theorem Derived.round {initial : ClauseSet} {engine later : Engine}
    (derived : Derived initial engine) (round : Round engine later) : Derived initial later := by
  cases round with
  | finished ended => exact derived
  | conflict scan pair active faithful found =>
      refine ⟨derived.recorded, ?_⟩
      intro other ended
      cases ended
      exact faithful.conflict pair found
  | saturated scan active faithful free idle =>
      refine ⟨derived.recorded, ?_⟩
      intro pair impossible
      cases impossible
  | grown scan active faithful free busy =>
      have begun : Derived initial (engine.scanned scan) :=
        ⟨derived.recorded, derived.complementary⟩
      exact begun.foldl_addStaged active _ faithful.staged

theorem derived_calls (config : Config) (set : ClauseSet) (made : List Call) :
    Derived set ((start config set).calls made) := by
  apply calls_induction (Derived set) _ _ made _ (derived_start config set)
  · exact fun environment engine derived => derived.round (round_step environment engine)
  · exact fun engine budget derived => ⟨derived.recorded, derived.complementary⟩

section

variable {initial set : ClauseSet} {record : Derivation}

/-- Only the keys of the initial set are input. -/
theorem Recorded.lt_of_dependsOn (recorded : Recorded initial set record) (key origin : Nat)
    (depends : record.DependsOn key origin) : origin < initial.size := by
  obtain ⟨last, entry, _, found, input, named⟩ := depends
  have inside := Derivation.entryAt?_lt record last entry found
  rw [recorded.length] at inside
  obtain ⟨own, known, noted⟩ := recorded.noted last inside
  rw [known, Option.some.injEq] at found
  rw [← found] at input named
  cases noted with
  | input given => exact named ▸ given
  | resolvent first second round clause other added ordered before left right able resolved =>
      cases input

theorem Recorded.get?_initial (recorded : Recorded initial set record) (key : Nat)
    (inside : key < initial.size) : initial.get? key = set.get? key := by
  obtain ⟨clause, given⟩ := initial.exists_get? key inside
  rw [given, ClauseSet.get?_of_kept recorded.kept key clause given]

theorem Recorded.evaluate_of_dependsOn (recorded : Recorded initial set record)
    (valuation : Valuation) (key : Nat) (clause : Clause) (found : set.get? key = some clause)
    (holds : ∀ origin, record.DependsOn key origin → ∀ source,
      set.get? origin = some source → source.evaluate valuation = true) :
    clause.evaluate valuation = true := by
  -- A resolvent holds where its parents do, and what these depend on it depends on as well.
  induction key using Nat.strongRecOn generalizing clause with
  | ind key ih =>
      obtain ⟨entry, known, noted⟩ := recorded.noted key (set.get?_lt key clause found)
      cases noted with
      | input given => exact holds key ⟨key, _, .here key, known, rfl, rfl⟩ clause found
      | resolvent first second round left right added ordered before inLeft inRight able resolved =>
          have inherits : ∀ parent, parent = first ∨ parent = second → ∀ origin,
              record.DependsOn parent origin → record.DependsOn key origin := by
            intro parent either origin ⟨last, own, reaches, rest⟩
            have source : parent ∈ Entry.places ⟨key, round, [.entry second, .entry first]⟩ := by
              simpa [Entry.places, Source.place?] using either.symm
            exact ⟨last, own, .back key parent last _ known source reaches, rest⟩
          rw [found, Option.some.injEq] at resolved
          rw [resolved]
          apply Clause.evaluate_resolveWith
          · exact ih first (by omega) left inLeft fun origin depends =>
              holds origin (inherits first (Or.inl rfl) origin depends)
          · exact ih second before right inRight fun origin depends =>
              holds origin (inherits second (Or.inr rfl) origin depends)

theorem Recorded.mem_origins_iff (recorded : Recorded initial set record) (keys : List Nat)
    (within : ∀ key ∈ keys, key < set.size) (origin : Nat) :
    origin ∈ record.origins keys ↔ ∃ key ∈ keys, record.DependsOn key origin := by
  rw [Derivation.mem_origins_iff record keys origin recorded.backward]
  refine exists_congr fun key => and_congr_right fun member => ?_
  rw [recorded.named key (within key member)]
  simp

theorem Recorded.lt_of_mem_origins (recorded : Recorded initial set record) (keys : List Nat)
    (within : ∀ key ∈ keys, key < set.size) (origin : Nat)
    (member : origin ∈ record.origins keys) : origin < initial.size := by
  obtain ⟨key, _, depends⟩ := (recorded.mem_origins_iff keys within origin).mp member
  exact recorded.lt_of_dependsOn key origin depends

theorem Recorded.evaluate_of_origins (recorded : Recorded initial set record) (keys : List Nat)
    (within : ∀ key ∈ keys, key < set.size) (valuation : Valuation)
    (holds : ∀ origin ∈ record.origins keys, ∀ source,
      initial.get? origin = some source → source.evaluate valuation = true) (key : Nat)
    (wanted : key ∈ keys) (clause : Clause) (found : set.get? key = some clause) :
    clause.evaluate valuation = true := by
  apply recorded.evaluate_of_dependsOn valuation key clause found
  intro origin depends source known
  have member := (recorded.mem_origins_iff keys within origin).mpr ⟨key, wanted, depends⟩
  apply holds origin member source
  rw [recorded.get?_initial origin (recorded.lt_of_dependsOn key origin depends), known]

end

section

variable {initial : ClauseSet} {engine : Engine} {pair : Pair}

theorem Derived.lt_of_conflict (derived : Derived initial engine)
    (ended : engine.state = .conflict pair) :
    ∀ key ∈ [pair.1, pair.2], key < engine.set.size := by
  have inside := Scan.lt_of_isConflict engine.set pair (derived.complementary pair ended).2
  simpa using inside

theorem Derived.map_core (derived : Derived initial engine)
    (ended : engine.state = .conflict pair) :
    (engine.derivation.origins [pair.1, pair.2]).map initial.get? = engine.core.map some := by
  have recorded := derived.recorded
  have below := recorded.lt_of_mem_origins [pair.1, pair.2] (derived.lt_of_conflict ended)
  have present : ∀ found ∈ (engine.derivation.origins [pair.1, pair.2]).map engine.set.get?,
      found.isSome = true := by
    intro found member
    obtain ⟨origin, listed, known⟩ := List.mem_map.mp member
    obtain ⟨clause, given⟩ := initial.exists_get? origin (below origin listed)
    rw [← known, ← recorded.get?_initial origin (below origin listed), given]
    rfl
  rw [core, ended, List.map_filterMap_some_eq_filter_map_isSome,
    List.filter_eq_self.mpr present]
  apply List.map_congr_left
  intro origin listed
  exact recorded.get?_initial origin (below origin listed)

theorem Derived.core_refutes (derived : Derived initial engine)
    (ended : engine.state = .conflict pair) (valuation : Valuation) :
    engine.core.all (Clause.evaluate valuation) = false := by
  have within := derived.lt_of_conflict ended
  obtain ⟨clause, other, left, right, complementary⟩ :=
    (Scan.isConflict_iff engine.set pair).mp (derived.complementary pair ended).2
  rw [Bool.eq_false_iff]
  intro every
  have sources : ∀ origin ∈ engine.derivation.origins [pair.1, pair.2], ∀ source,
      initial.get? origin = some source → source.evaluate valuation = true := by
    intro origin listed source given
    have member : some source ∈ engine.core.map some := by
      rw [← derived.map_core ended, ← given]
      exact List.mem_map_of_mem listed
    obtain ⟨own, inside, same⟩ := List.mem_map.mp member
    rw [← Option.some.inj same]
    exact List.all_eq_true.mp every own inside
  have holds := derived.recorded.evaluate_of_origins _ within valuation sources
  have first := holds pair.1 (by simp) clause left
  have second := holds pair.2 (by simp) other right
  rw [Clause.not_evaluate_of_isComplementaryTo valuation clause other complementary first] at second
  cases second

end

/-- Whatever is called, the record proves each clause from the initial clauses it
names as origins, and the core is a refutation by initial clauses in order of key. -/
theorem origins_entail_and_core_refutes (initial : ClauseSet) (config : Config)
    (made : List Call) :
    let engine := (start config initial).calls made
    (∀ key clause, engine.set.get? key = some clause →
      (∀ origin ∈ engine.derivation.origins [key], origin < initial.size) ∧
        ∀ valuation, (∀ origin ∈ engine.derivation.origins [key], ∀ source,
          initial.get? origin = some source → source.evaluate valuation = true) →
            clause.evaluate valuation = true) ∧
      ∀ pair, engine.state = .conflict pair →
        (∃ keys : List Nat, keys.Pairwise (· < ·) ∧
          keys.map initial.get? = engine.core.map some) ∧
          ∀ valuation, engine.core.all (Clause.evaluate valuation) = false := by
  intro engine
  have derived : Derived initial engine := derived_calls config initial made
  constructor
  · intro key clause found
    have within : ∀ wanted ∈ [key], wanted < engine.set.size := by
      intro wanted member
      rw [List.mem_singleton.mp member]
      exact engine.set.get?_lt key clause found
    refine ⟨derived.recorded.lt_of_mem_origins [key] within, ?_⟩
    intro valuation holds
    exact derived.recorded.evaluate_of_origins [key] within valuation holds key
      (List.mem_singleton_self key) clause found
  · intro pair ended
    refine ⟨⟨_, Derivation.origins_pairwise _ _, derived.map_core ended⟩, ?_⟩
    exact derived.core_refutes ended

/-- Of the clauses `p`, `r`, `!p || q` and `!q` the second has no part in a conflict. -/
def chain : ClauseSet :=
  .ofList [⟨[⟨"p", false⟩]⟩, ⟨[⟨"r", false⟩]⟩, ⟨[⟨"p", true⟩, ⟨"q", false⟩]⟩, ⟨[⟨"q", true⟩]⟩]

def chainRun : Engine :=
  (start {} chain).calls [.step {}, .refute {}]

theorem origins_entail_and_core_refutes_chain :
    chainRun.set.get? 4 = some ⟨[⟨"q", false⟩]⟩ ∧
      (∀ origin ∈ chainRun.derivation.origins [4], origin < chain.size) ∧
      chainRun.core = [⟨[⟨"p", false⟩]⟩, ⟨[⟨"p", true⟩, ⟨"q", false⟩]⟩, ⟨[⟨"q", true⟩]⟩] ∧
      ∀ valuation, chainRun.core.all (Clause.evaluate valuation) = false := by
  have clause : chainRun.set.get? 4 = some ⟨[⟨"q", false⟩]⟩ := by decide
  have ended : chainRun.state = .conflict (0, 5) := by decide
  have general := origins_entail_and_core_refutes chain {} [.step {}, .refute {}]
  exact ⟨clause, (general.1 4 _ clause).1, by decide, (general.2 (0, 5) ended).2⟩

end Engine
end Clausal
