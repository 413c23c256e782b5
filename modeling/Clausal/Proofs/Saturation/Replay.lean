import Clausal.Proofs.Saturation.Ancestry
import Clausal.Proofs.Saturation.Growth

set_option autoImplicit false

namespace Clausal

def Staged.entry (staged : Staged) (round key : Nat) : Entry :=
  ⟨key, round, [.entry staged.parents.2, .entry staged.parents.1]⟩

namespace Engine

theorem entries_foldl_addStaged (staged : List Staged) (engine : Engine)
    (addable : Addable engine.set staged)
    (aligned : engine.derivation.entries.length = engine.set.size)
    (known : ∀ entry ∈ staged, ∀ parent, parent = entry.parents.1 ∨ parent = entry.parents.2 →
      Derivation.latest? parent engine.derivation.entries = some parent) :
    (staged.foldl addStaged engine).derivation.entries.reverse =
      engine.derivation.entries.reverse ++
        staged.mapIdx fun place entry => entry.entry engine.rounds (engine.set.size + place) := by
  induction staged generalizing engine with
  | nil => simp
  | cons entry rest ih =>
      obtain ⟨added, grown, addable⟩ := addable.addStaged
      obtain ⟨knownHere, knownLater⟩ := List.forall_mem_cons.mp known
      have older : ∀ parent, Derivation.latest? parent engine.derivation.entries = some parent →
          parent ≠ engine.set.size := by
        intro parent found
        have before := Derivation.latest?_lt parent parent _ found
        omega
      have left := knownHere entry.parents.1 (Or.inl rfl)
      have right := knownHere entry.parents.2 (Or.inr rfl)
      have noted : engine.derivation.addResolvent engine.set.size entry.parents engine.rounds =
          ⟨entry.entry engine.rounds engine.set.size :: engine.derivation.entries⟩ :=
        Derivation.addResolvent_eq _ _ _ _ _ left (older _ left) right (older _ right)
      have size : (engine.set.insert entry.clause).2.size = engine.set.size + 1 :=
        ClauseSet.size_of_append grown
      rw [List.foldl_cons, added, noted, ih _ addable]
      · simp [List.mapIdx_cons, size, Nat.add_assoc, Nat.add_comm 1]
      · rw [size]
        exact congrArg (· + 1) aligned
      · intro other member parent either
        have found := knownLater other member parent either
        have newer : ¬ (entry.entry engine.rounds engine.set.size).key = parent :=
          (older parent found).symm
        rw [Derivation.latest?_cons, if_neg newer]
        exact found

theorem Derived.entries_of_faithful {initial : ClauseSet} {engine : Engine}
    (derived : Derived initial engine) (scan : Scan) (faithful : scan.Faithful engine.set) :
    (scan.staged.toList.foldl addStaged (engine.scanned scan)).derivation.entries.reverse =
      engine.derivation.entries.reverse ++ scan.staged.toList.mapIdx fun place entry =>
        entry.entry (engine.rounds + 1) (engine.set.size + place) := by
  apply entries_foldl_addStaged _ (engine.scanned scan) (addable_of_faithful faithful)
  · exact derived.recorded.length
  · intro entry member parent either
    have inside := Scan.lt_of_resolvent? _ _ entry (faithful.staged entry member).2
    apply derived.recorded.named parent
    rcases either with rfl | rfl
    · exact inside.1
    · exact inside.2

/-- What a round adds to a run: the entries there were stay, and each new key is that
of a resolvent of two clauses which were there before. -/
theorem Derived.added_of_round {initial : ClauseSet} {engine later : Engine}
    (derived : Derived initial engine) (round : Round engine later) :
    engine.derivation.entries.reverse <+: later.derivation.entries.reverse ∧
      ∀ key, engine.set.size ≤ key → key < later.set.size →
        ∃ staged : Staged, staged.parents.1 ≤ staged.parents.2 ∧
          Scan.resolvent? engine.set staged.parents = some staged ∧
          later.set.get? key = some staged.clause ∧
          later.derivation.entryAt? key = some (staged.entry (engine.rounds + 1) key) := by
  have none : ∀ key, engine.set.size ≤ key → ¬ key < engine.set.size := fun _ => Nat.not_lt.mpr
  cases round with
  | finished => exact ⟨List.prefix_refl _, fun key since added => absurd added (none key since)⟩
  | conflict => exact ⟨List.prefix_refl _, fun key since added => absurd added (none key since)⟩
  | saturated => exact ⟨List.prefix_refl _, fun key since added => absurd added (none key since)⟩
  | grown scan active faithful =>
      have grown := toList_of_faithful engine scan faithful
      have entries := derived.entries_of_faithful scan faithful
      refine ⟨⟨_, entries.symm⟩, ?_⟩
      intro key since added
      -- The keys of a round and what it has staged are numbered alike.
      obtain ⟨place, rfl⟩ := Nat.exists_eq_add_of_le since
      rw [ClauseSet.size_of_append grown, List.length_map, Nat.add_lt_add_iff_left] at added
      obtain ⟨entry, found⟩ : ∃ entry, scan.staged.toList[place]? = some entry :=
        ⟨_, List.getElem?_eq_getElem added⟩
      obtain ⟨ordered, offered⟩ := faithful.staged entry (List.mem_of_getElem? found)
      refine ⟨entry, ordered, offered, ?_, ?_⟩
      · rw [ClauseSet.get?_eq, grown, ← ClauseSet.length_toList,
          List.getElem?_append_right (Nat.le_add_right _ _), Nat.add_sub_cancel_left,
          List.getElem?_map, found]
        rfl
      · have length : engine.derivation.entries.reverse.length = engine.set.size := by
          rw [List.length_reverse, derived.recorded.length]
        rw [Derivation.entryAt?, entries, List.getElem?_append_right (length.trans_le since), length,
          Nat.add_sub_cancel_left, List.getElem?_mapIdx, found]
        rfl

/-- How a clause came to its key: the round which added it, and what this had staged. -/
structure Traced (engine : Engine) (key : Nat) (round : RoundMade) (staged : Staged) : Prop where
  since : round.before.set.size ≤ key
  added : key < round.after.set.size
  ordered : staged.parents.1 ≤ staged.parents.2
  offered : Scan.resolvent? round.before.set staged.parents = some staged
  kept : round.before.set.toList <+: engine.set.toList
  clause : engine.set.get? key = some staged.clause
  entry : engine.derivation.entryAt? key = some (staged.entry (round.before.rounds + 1) key)

theorem Traced.mono {engine later : Engine} {key : Nat} {round : RoundMade} {staged : Staged}
    (traced : Traced engine key round staged) (kept : engine.set.toList <+: later.set.toList)
    (recorded : engine.derivation.entries.reverse <+: later.derivation.entries.reverse) :
    Traced later key round staged where
  since := traced.since
  added := traced.added
  ordered := traced.ordered
  offered := traced.offered
  kept := traced.kept.trans kept
  clause := ClauseSet.get?_of_kept kept key _ traced.clause
  entry := by
    obtain ⟨more, whole⟩ := recorded
    have found := traced.entry
    rw [Derivation.entryAt?] at found ⊢
    have inside := (List.getElem?_eq_some_iff.mp found).1
    rw [← whole, List.getElem?_append_left inside, found]

theorem Traced.resolved {engine : Engine} {key : Nat} {round : RoundMade} {staged : Staged}
    (traced : Traced engine key round staged) :
    staged.parents.1 < staged.parents.2 ∧ staged.parents.2 < key ∧
      ∃ clause other, round.before.set.get? staged.parents.1 = some clause ∧
        round.before.set.get? staged.parents.2 = some other ∧
        engine.set.get? key = some (clause.resolveWith other) ∧
        (clause.resolveWith other).isTautology = false := by
  obtain ⟨_, clause, other, left, right, able, resolved, proper, _⟩ :=
    (Scan.resolvent?_eq_some_iff _ _ _).mp traced.offered
  rw [← resolved] at proper
  have before := round.before.set.get?_lt staged.parents.2 other right
  have unlike : staged.parents.1 ≠ staged.parents.2 := by
    intro same
    rw [same, right, Option.some.injEq] at left
    rw [left, Clause.isTautology_resolveWith_self clause
      (Clause.exists_clash_of_canResolveWith clause clause (left ▸ able))] at proper
    cases proper
  refine ⟨Nat.lt_of_le_of_ne traced.ordered unlike, Nat.lt_of_lt_of_le before traced.since,
    clause, other, left, right, ?_, proper⟩
  rw [resolved]
  exact traced.clause

/-- Each clause which is not initial can be traced to a round that was made. -/
structure Replayed (initial : ClauseSet) (engine : Engine) (past : List RoundMade) : Prop
    extends Derived initial engine where
  traced : ∀ key, initial.size ≤ key → key < engine.set.size →
    ∃ round ∈ past, ∃ staged, Traced engine key round staged

theorem Replayed.after {initial : ClauseSet} {past : List RoundMade} (round : RoundMade)
    (replayed : Replayed initial round.before past) :
    Replayed initial round.after (past ++ [round]) := by
  have made : Round round.before round.after := round_step round.environment round.before
  obtain ⟨recorded, added⟩ := replayed.toDerived.added_of_round made
  have kept := kept_of_round made
  refine ⟨replayed.toDerived.round made, ?_⟩
  intro key given inside
  by_cases older : key < round.before.set.size
  · obtain ⟨earlier, member, staged, traced⟩ := replayed.traced key given older
    exact ⟨earlier, List.mem_append_left _ member, staged, traced.mono kept recorded⟩
  · have since := Nat.not_lt.mp older
    obtain ⟨staged, ordered, offered, clause, entry⟩ := added key since inside
    exact ⟨round, List.mem_append_right _ (List.mem_singleton_self round), staged,
      ⟨since, inside, ordered, offered, kept, clause, entry⟩⟩

theorem replayed_calls (config : Config) (set : ClauseSet) (made : List Call) :
    Replayed set ((start config set).calls made) ((start config set).history made) := by
  apply history_induction (Replayed set) _ _ made _ []
  · refine ⟨derived_start config set, ?_⟩
    intro key given inside
    exact absurd inside (Nat.not_lt.mpr given)
  · exact fun round past _ replayed => replayed.after round
  · intro engine past budget replayed
    refine ⟨⟨replayed.recorded, replayed.complementary⟩, ?_⟩
    intro key given inside
    obtain ⟨round, member, staged, traced⟩ := replayed.traced key given inside
    exact ⟨round, member, staged, traced.mono (List.prefix_refl _) (List.prefix_refl _)⟩

section

variable {initial set : ClauseSet} {record : Derivation}

theorem Recorded.entryOf?_eq (recorded : Recorded initial set record) (key : Nat)
    (inside : key < set.size) : record.entryOf? key = record.entryAt? key := by
  rw [Derivation.entryOf?, recorded.named key inside]
  rfl

/-- An entry is at the place of its key. -/
theorem Recorded.key_eq (recorded : Recorded initial set record) (place : Nat) (entry : Entry)
    (found : record.entryAt? place = some entry) : entry.key = place := by
  have inside := Derivation.entryAt?_lt record place entry found
  rw [recorded.length] at inside
  obtain ⟨own, known, noted⟩ := recorded.noted place inside
  rw [known, Option.some.injEq] at found
  rw [← found]
  cases noted with
  | input => rfl
  | resolvent => rfl

theorem Recorded.entryOf?_eq_none (recorded : Recorded initial set record) (key : Nat)
    (outside : set.size ≤ key) : record.entryOf? key = none := by
  rw [Derivation.entryOf?]
  cases found : Derivation.latest? key record.entries with
  | none => rfl
  | some place =>
      obtain ⟨entry, there, named⟩ := Derivation.entryAt?_of_latest? record key place found
      have before := Derivation.latest?_lt key place record.entries found
      have same := recorded.key_eq place entry there
      rw [recorded.length] at before
      omega

theorem Recorded.entryOf?_initial (recorded : Recorded initial set record) (key : Nat)
    (given : key < initial.size) : record.entryOf? key = some ⟨key, 0, [.input]⟩ := by
  have inside := Nat.lt_of_lt_of_le given (ClauseSet.size_le_of_kept recorded.kept)
  obtain ⟨entry, found, noted⟩ := recorded.noted key inside
  rw [recorded.entryOf?_eq key inside, found]
  cases noted with
  | input => rfl
  | resolvent first second round clause other added => omega

theorem Recorded.parents?_of_entry (recorded : Recorded initial set record) (key round : Nat)
    (first second : Nat) (left : first < set.size) (right : second < set.size)
    (found : record.entryOf? key = some ⟨key, round, [.entry second, .entry first]⟩) :
    record.parents? key = some (second, first) := by
  have named : ∀ place, place < set.size →
      (record.entryAt? place).map Entry.key = some place := by
    intro place inside
    obtain ⟨entry, there, _⟩ := recorded.noted place inside
    rw [there, Option.map_some, recorded.key_eq place entry there]
  rw [Derivation.parents?, found]
  simp [Entry.places, Source.place?, named first left, named second right]

end

/-- Whatever is called, the record names for each clause which was added the two it is
the resolvent of, both there when the round which added it began, and for the initial
clauses and unknown keys none. -/
theorem record_replays (initial : ClauseSet) (config : Config) (made : List Call) :
    let engine := (start config initial).calls made
    let history := (start config initial).history made
    (∀ key, key < initial.size →
      engine.derivation.isInput key = true ∧ engine.derivation.parents? key = none) ∧
      (∀ key, initial.size ≤ key → key < engine.set.size →
        engine.derivation.isInput key = false ∧
          ∃ first second, first < second ∧ second < key ∧
            engine.derivation.parents? key = some (second, first) ∧
            ∃ clause other, engine.set.get? first = some clause ∧
              engine.set.get? second = some other ∧
              (∃ round ∈ history, round.before.set.size ≤ key ∧ key < round.after.set.size ∧
                round.before.set.get? first = some clause ∧
                round.before.set.get? second = some other) ∧
              engine.set.get? key = some (clause.resolveWith other) ∧
              (clause.resolveWith other).isTautology = false) ∧
      ∀ key, engine.set.size ≤ key →
        engine.derivation.isInput key = false ∧ engine.derivation.parents? key = none := by
  intro engine history
  have replayed : Replayed initial engine history := replayed_calls config initial made
  have recorded := replayed.recorded
  refine ⟨?_, ?_, ?_⟩
  · intro key given
    rw [Derivation.isInput, Derivation.parents?, recorded.entryOf?_initial key given]
    exact ⟨rfl, rfl⟩
  · intro key given inside
    obtain ⟨round, member, staged, traced⟩ := replayed.traced key given inside
    obtain ⟨ordered, older, clause, other, left, right, resolved, proper⟩ := traced.resolved
    have entry := (recorded.entryOf?_eq key inside).trans traced.entry
    have left' := ClauseSet.get?_of_kept traced.kept _ clause left
    have right' := ClauseSet.get?_of_kept traced.kept _ other right
    have parents := recorded.parents?_of_entry key _ _ _ (engine.set.get?_lt _ clause left')
      (engine.set.get?_lt _ other right') entry
    refine ⟨?_, _, _, ordered, older, parents, clause, other, left', right',
      ⟨round, member, traced.since, traced.added, left, right⟩, resolved, proper⟩
    rw [Derivation.isInput, entry]
    rfl
  · intro key outside
    rw [Derivation.isInput, Derivation.parents?, recorded.entryOf?_eq_none key outside]
    exact ⟨rfl, rfl⟩

/-- In the first round `q` comes of the first clause, `p`, and the third, `!p || q`. -/
theorem record_replays_chain :
    chain.size = 4 ∧ chainRun.set.size = 6 ∧
      (∀ key, key < 4 → chainRun.derivation.isInput key = true) ∧
      chainRun.derivation.parents? 4 = some (2, 0) ∧
      (∃ round ∈ (start {} chain).history [.step {}, .refute {}],
        round.before.set.size ≤ 4 ∧ 4 < round.after.set.size) ∧
      chainRun.derivation.parents? 6 = none := by
  obtain ⟨inputs, resolvents, unknown⟩ := record_replays chain {} [.step {}, .refute {}]
  obtain ⟨_, _, _, _, _, _, _, _, _, _, ⟨round, member, since, added, _⟩, _⟩ :=
    resolvents 4 (by decide) (by decide)
  exact ⟨by decide, by decide, fun key given => (inputs key given).1, by decide,
    ⟨round, member, since, added⟩, (unknown 6 (by decide)).2⟩

end Engine
end Clausal
