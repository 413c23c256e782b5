import Clausal.Proofs.Clause.Count
import Clausal.Proofs.Clause.Resolution
import Clausal.Proofs.Saturation.Round

set_option autoImplicit false

namespace Clausal

/-- Sets of clauses without repeats over the listed atoms. -/
structure ClauseSet.Normal (names : List String) (set : ClauseSet) : Prop extends set.Valid where
  distinct : ∀ clause ∈ set.toList, clause.literals.Nodup
  within : ∀ clause ∈ set.toList, ∀ literal ∈ clause.literals, literal.atom ∈ names

namespace ClauseSet

theorem mem_atoms (set : ClauseSet) (clause : Clause) (member : clause ∈ set.toList)
    (literal : Literal) (inside : literal ∈ clause.literals) : literal.atom ∈ set.atoms := by
  rw [atoms, Ordered.mem_distinct]
  exact List.mem_flatMap.mpr ⟨clause, member, List.mem_map_of_mem inside⟩

theorem normal_ofList (clauses : List Clause)
    (distinct : ∀ clause ∈ clauses, clause.literals.Nodup) :
    (ofList clauses).Normal (ofList clauses).atoms where
  toValid := valid_ofList clauses
  distinct clause member := distinct clause (mem_of_mem_ofList clauses clause member)
  within := mem_atoms (ofList clauses)

theorem Normal.insert {names : List String} {set : ClauseSet} (normal : set.Normal names)
    (clause : Clause) (distinct : clause.literals.Nodup)
    (within : ∀ literal ∈ clause.literals, literal.atom ∈ names) :
    (set.insert clause).2.Normal names := by
  refine ⟨normal.toValid.insert clause, ?_, ?_⟩
  · rcases insert_cases set clause with ⟨_, same⟩ | ⟨_, _, _, added, _⟩
    · rw [same]
      exact normal.distinct
    · rw [added, List.forall_mem_append, List.forall_mem_singleton]
      exact ⟨normal.distinct, distinct⟩
  · rcases insert_cases set clause with ⟨_, same⟩ | ⟨_, _, _, added, _⟩
    · rw [same]
      exact normal.within
    · rw [added, List.forall_mem_append, List.forall_mem_singleton]
      exact ⟨normal.within, within⟩

theorem Normal.over_atoms {names : List String} {set : ClauseSet} (normal : set.Normal names) :
    set.Normal set.atoms :=
  { normal with within := mem_atoms set }

theorem Normal.size_le {names : List String} {set : ClauseSet} (normal : set.Normal names) :
    set.size ≤ 3 ^ names.length := by
  rw [← length_toList]
  exact Clause.length_le_pow names set.toList normal.distinct normal.proper normal.within
    normal.apart

end ClauseSet

/-- Nothing but its own end ends a run of such a configuration. -/
structure Config.Unlimited (config : Config) : Prop where
  time : config.timeLimit = none
  rounds : config.roundLimit = none
  clauses : config.clauseLimit = none

namespace Engine

/-- Additions change the set, the record and the count of resolvents, and nothing else. -/
theorem foldl_addStaged_eq (staged : List Staged) (engine : Engine) :
    ∃ set derivation resolvents,
      staged.foldl addStaged engine = { engine with set, derivation, resolvents } := by
  refine List.foldlRecOn (motive := fun later => ∃ set derivation resolvents,
    later = { engine with set, derivation, resolvents }) staged addStaged
    ⟨engine.set, engine.derivation, engine.resolvents, rfl⟩ ?_
  intro later ⟨set, derivation, resolvents, same⟩ entry _
  rcases addStaged_cases later entry with ⟨_, unchanged⟩ | ⟨_, _, added⟩
  · exact ⟨set, derivation, resolvents, unchanged.trans same⟩
  · rw [added, same]
    exact ⟨_, _, _, rfl⟩

/-- Clauses which are new to a set, and to one another. -/
structure Addable (set : ClauseSet) (staged : List Staged) : Prop where
  proper : ∀ entry ∈ staged, entry.clause.isTautology = false
  fresh : ∀ entry ∈ staged, set.contains entry.clause = false
  apart : staged.Pairwise fun entry other => entry.clause.canonical ≠ other.clause.canonical

theorem addable_of_faithful {set : ClauseSet} {scan : Scan} (faithful : scan.Faithful set) :
    Addable set scan.staged.toList := by
  have offered : ∀ entry ∈ scan.staged.toList,
      entry.clause.isTautology = false ∧ set.contains entry.clause = false := by
    intro entry member
    obtain ⟨_, _, _, _, _, _, _, unseen⟩ :=
      (Scan.resolvent?_eq_some_iff _ _ entry).mp (faithful.staged entry member).2
    exact unseen
  exact ⟨fun entry member => (offered entry member).1,
    fun entry member => (offered entry member).2, faithful.apart⟩

/-- The first is added under the next key, and the others can be added after it. -/
theorem Addable.addStaged {engine : Engine} {entry : Staged} {rest : List Staged}
    (addable : Addable engine.set (entry :: rest)) :
    engine.addStaged entry =
        { engine with
          set := (engine.set.insert entry.clause).2
          derivation := engine.derivation.addResolvent engine.set.size entry.parents engine.rounds
          resolvents := engine.resolvents + 1 } ∧
      (engine.set.insert entry.clause).2.toList = engine.set.toList ++ [entry.clause] ∧
      Addable (engine.set.insert entry.clause).2 rest := by
  obtain ⟨properHere, properLater⟩ := List.forall_mem_cons.mp addable.proper
  obtain ⟨freshHere, freshLater⟩ := List.forall_mem_cons.mp addable.fresh
  obtain ⟨unlike, apartLater⟩ := List.pairwise_cons.mp addable.apart
  refine ⟨?_, ClauseSet.toList_insert _ _ properHere freshHere, properLater, ?_, apartLater⟩
  · rcases addStaged_cases engine entry with ⟨refused, _⟩ | ⟨_, _, added⟩
    · rw [properHere, freshHere] at refused
      simp at refused
    · exact added
  · intro other member
    rw [ClauseSet.contains_insert _ _ _ properHere, freshLater other member, Bool.or_false]
    exact beq_false_of_ne (unlike other member)

theorem toList_foldl_addStaged (staged : List Staged) (engine : Engine)
    (addable : Addable engine.set staged) :
    (staged.foldl addStaged engine).set.toList = engine.set.toList ++ staged.map Staged.clause := by
  induction staged generalizing engine with
  | nil => simp
  | cons entry rest ih =>
      obtain ⟨added, grown, addable⟩ := addable.addStaged
      rw [List.foldl_cons, added, ih _ addable, grown, List.map_cons, List.append_assoc,
        List.singleton_append]

theorem toList_of_faithful (engine : Engine) (scan : Scan) (faithful : scan.Faithful engine.set) :
    (scan.staged.toList.foldl addStaged (engine.scanned scan)).set.toList =
      engine.set.toList ++ scan.staged.toList.map Staged.clause :=
  toList_foldl_addStaged _ (engine.scanned scan) (addable_of_faithful faithful)

theorem kept_of_round {engine later : Engine} (round : Round engine later) :
    engine.set.toList <+: later.set.toList := by
  cases round with
  | finished => exact List.prefix_refl _
  | conflict => exact List.prefix_refl _
  | saturated => exact List.prefix_refl _
  | grown scan active faithful => exact ⟨_, (toList_of_faithful engine scan faithful).symm⟩

theorem kept_calls (engine : Engine) (made : List Call) :
    engine.set.toList <+: (engine.calls made).set.toList := by
  apply calls_induction (fun later => engine.set.toList <+: later.set.toList) _ _ made _
    (List.prefix_refl _)
  · exact fun environment later kept => kept.trans (kept_of_round (round_step environment later))
  · exact fun later budget kept => kept

theorem normal_of_round {names : List String} {engine later : Engine}
    (normal : engine.set.Normal names) (round : Round engine later) :
    later.set.Normal names := by
  cases round with
  | finished ended => exact normal
  | conflict scan pair active faithful found => exact normal
  | saturated scan active faithful free idle => exact normal
  | grown scan active faithful free busy =>
      have begun : (engine.scanned scan).set.Normal names := normal
      refine List.foldlRecOn (motive := fun later => later.set.Normal names) scan.staged.toList
        addStaged begun ?_
      intro between held entry member
      obtain ⟨_, clause, other, left, right, _, resolved, _⟩ :=
        (Scan.resolvent?_eq_some_iff _ _ entry).mp (faithful.staged entry member).2
      have first := (engine.set.mem_toList_iff clause).mpr ⟨_, left⟩
      have second := (engine.set.mem_toList_iff other).mpr ⟨_, right⟩
      rcases addStaged_cases between entry with ⟨_, same⟩ | ⟨_, _, added⟩
      · rw [same]
        exact held
      · rw [added]
        apply held.insert
        · rw [← resolved]
          exact Clause.nodup_resolveWith clause other
        · intro literal inside
          rw [← resolved] at inside
          rcases Clause.mem_of_mem_resolveWith literal clause other inside with own | own
          · exact normal.within clause first literal own
          · exact normal.within other second literal own

theorem normal_of_calls {names : List String} (engine : Engine)
    (normal : engine.set.Normal names) (made : List Call) :
    (engine.calls made).set.Normal names := by
  apply calls_induction (fun later => later.set.Normal names) _ _ made _ normal
  · exact fun environment later held => normal_of_round held (round_step environment later)
  · exact fun later budget held => held

/-- Whatever is called, the set has distinct clauses over the atoms it began with. -/
theorem normal_calls {names : List String} {config : Config} {set : ClauseSet}
    (normal : set.Normal names) (made : List Call) :
    ((start config set).calls made).set.Normal names :=
  normal_of_calls (start config set) normal made

/-- A round which leaves the run open makes the set larger. -/
theorem size_lt_of_round {engine later : Engine} (round : Round engine later)
    (unfinished : later.state = .active) : engine.set.size < later.set.size := by
  cases round with
  | finished ended => exact absurd unfinished ended
  | conflict => cases unfinished
  | saturated => cases unfinished
  | grown scan active faithful free busy =>
      have grown := ClauseSet.size_of_append (toList_of_faithful engine scan faithful)
      have busyLength := List.length_pos_iff.mpr busy
      rw [List.length_map] at grown
      omega

/-- No round touches what the run was told or has noted of its limits. -/
theorem unchanged_of_round {engine later : Engine} (round : Round engine later) :
    later.config = engine.config ∧ later.exhausted = engine.exhausted := by
  cases round with
  | finished => exact ⟨rfl, rfl⟩
  | conflict => exact ⟨rfl, rfl⟩
  | saturated => exact ⟨rfl, rfl⟩
  | grown scan =>
      obtain ⟨_, _, _, same⟩ := foldl_addStaged_eq scan.staged.toList (engine.scanned scan)
      rw [same]
      exact ⟨rfl, rfl⟩

theorem config_calls (engine : Engine) (made : List Call) :
    (engine.calls made).config = engine.config := by
  apply calls_induction (fun later => later.config = engine.config) _ _ made _ rfl
  · exact fun environment later same =>
      (unchanged_of_round (round_step environment later)).1.trans same
  · exact fun later budget same => same

/-- A run which is over, or has noted the limit which it has reached. -/
def Stopped (environment : Environment) (engine : Engine) : Prop :=
  engine.state ≠ .active ∨ ∃ budget,
    engine.exceeded environment = some budget ∧ engine.exhausted = some budget

theorem stopped_run (environment : Environment) (rounds most : Nat) (engine : Engine)
    (few : ∀ made, (engine.calls made).set.size ≤ most)
    (enough : most < engine.set.size + rounds) :
    Stopped environment (engine.run environment rounds) := by
  -- There are more rounds left than clauses to come.
  induction rounds generalizing engine with
  | zero =>
      have none : engine.set.size ≤ most := few []
      omega
  | succ rounds ih =>
      rw [run]
      split
      · split
        · rename_i budget limit
          exact Or.inr ⟨budget, limit, rfl⟩
        · by_cases unfinished : (engine.step environment).state = .active
          · have larger := size_lt_of_round (round_step environment engine) unfinished
            exact ih _ (fun made => few (.step environment :: made)) (by omega)
          · rw [run_of_ne_active environment rounds _ unfinished]
            exact Or.inl unfinished
      · rename_i ended
        exact Or.inl ended

theorem stopped_refute {names : List String} (environment : Environment) (engine : Engine)
    (normal : engine.set.Normal names) : Stopped environment (engine.refute environment) := by
  have bound : engine.roundBound = 3 ^ engine.set.atoms.length + 1 := rfl
  exact stopped_run environment _ _ engine
    (fun made => (normal_of_calls engine normal.over_atoms made).size_le) (by omega)

theorem exceeded_of_unlimited (environment : Environment) (engine : Engine)
    (unlimited : engine.config.Unlimited) : engine.exceeded environment = none := by
  simp [exceeded, unlimited.time, unlimited.rounds, unlimited.clauses]

theorem refute_ended {names : List String} (environment : Environment) (config : Config)
    (unlimited : config.Unlimited) (set : ClauseSet) (normal : set.Normal names)
    (made : List Call) :
    (((start config set).calls made).refute environment).state ≠ .active := by
  have again : ((start config set).calls made).refute environment =
      (start config set).calls (made ++ [.refute environment]) := by
    simp [calls, call]
  rcases stopped_refute environment _ (normal_calls normal made) with ended | ⟨budget, limit, _⟩
  · exact ended
  · rw [exceeded_of_unlimited] at limit
    · cases limit
    · rw [again, config_calls]
      exact unlimited

end Engine
end Clausal
