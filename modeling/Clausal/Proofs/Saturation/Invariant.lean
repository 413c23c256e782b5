import Clausal.Proofs.Saturation.Verdict

set_option autoImplicit false

namespace Clausal

theorem Engine.Recorded.evaluate_eq {initial set : ClauseSet} {record : Derivation}
    (recorded : Recorded initial set record) (valuation : Valuation) :
    set.evaluate valuation = initial.evaluate valuation := by
  rw [Bool.eq_iff_iff, ClauseSet.evaluate_iff, ClauseSet.evaluate_iff]
  constructor
  · intro every clause member
    exact every clause (recorded.kept.subset member)
  · intro every clause member
    obtain ⟨key, found⟩ := (set.mem_toList_iff clause).mp member
    apply recorded.evaluate_of_dependsOn valuation key clause found
    intro origin depends source given
    rw [← recorded.get?_initial origin (recorded.lt_of_dependsOn key origin depends)] at given
    exact every source ((initial.mem_toList_iff source).mpr ⟨origin, given⟩)

namespace ClauseSet

variable {names : List String} {set : ClauseSet}

theorem Normal.sameAs_eq_false (normal : set.Normal names) (first second : Nat)
    (clause other : Clause) (unlike : first ≠ second) (left : set.get? first = some clause)
    (right : set.get? second = some other) : clause.sameAs other = false := by
  rw [Bool.eq_false_iff]
  intro same
  have distinct := normal.distinct clause ((set.mem_toList_iff clause).mpr ⟨first, left⟩)
  exact unlike (normal.key_eq_of_sameAs first second clause other distinct left right same)

/-- A set which is closed has what any clash leaves, in whichever order the two
clauses are taken. -/
theorem exists_sameAs_resolveWith (closed : Clause.Closed set.toList) (clause other : Clause)
    (member : clause ∈ set.toList) (member' : other ∈ set.toList) (literal : Literal)
    (inside : literal ∈ clause.literals) (inverse : literal.negate ∈ other.literals)
    (proper : (clause.resolveWith other).isTautology = false) :
    ∃ key found, set.get? key = some found ∧ found.sameAs (clause.resolveWith other) = true := by
  obtain ⟨pivot, own, opposite, resolved⟩ :=
    Clause.exists_resolveWith_eq clause other ⟨literal, inside, inverse⟩
  have distinct := Clause.nodup_resolveWith clause other
  rw [resolved] at proper distinct ⊢
  obtain ⟨found, listed, same⟩ :=
    closed.full clause member other member' pivot own opposite proper
  obtain ⟨key, known⟩ := (set.mem_toList_iff found).mp listed
  refine ⟨key, found, known, ?_⟩
  rw [Clause.sameAs_iff_canonical_eq _ _ (closed.distinct found listed)]
  exact Clause.canonical_eq_of_mem_iff _ _ (closed.distinct found listed) distinct same

end ClauseSet

namespace Engine

theorem resolvents_foldl_addStaged (staged : List Staged) (engine : Engine) (base : Nat)
    (counted : engine.set.size = base + engine.resolvents) :
    (staged.foldl addStaged engine).set.size = base + (staged.foldl addStaged engine).resolvents := by
  refine List.foldlRecOn (motive := fun later => later.set.size = base + later.resolvents)
    staged addStaged counted ?_
  intro later held entry _
  rcases addStaged_cases later entry with ⟨_, same⟩ | ⟨proper, fresh, added⟩
  · rw [same, held]
  · have grown := ClauseSet.size_of_append (ClauseSet.toList_insert later.set _ proper fresh)
    rw [added]
    dsimp only
    rw [grown, held, List.length_singleton, Nat.add_assoc]

theorem resolvents_calls (config : Config) (set : ClauseSet) (made : List Call) :
    ((start config set).calls made).set.size =
      set.size + ((start config set).calls made).resolvents := by
  apply calls_induction (fun engine => engine.set.size = set.size + engine.resolvents) _ _ made _ rfl
  · intro environment engine counted
    have round := round_step environment engine
    generalize engine.step environment = later at round
    cases round with
    | finished => exact counted
    | conflict => exact counted
    | saturated => exact counted
    | grown scan => exact resolvents_foldl_addStaged _ (engine.scanned scan) set.size counted
  · exact fun engine budget counted => counted

theorem calls_of_ne_active (engine : Engine) (ended : engine.state ≠ .active)
    (made : List Call) : engine.calls made = engine := by
  have still : ∀ next, engine.call next = engine := by
    intro next
    cases next with
    | step environment => exact step_of_ne_active environment engine ended
    | refute environment => exact refute_of_ne_active environment engine ended
  induction made with
  | nil => rfl
  | cons next rest ih =>
      rw [calls, List.foldl_cons, still]
      exact ih

/-- A conflict is between two clauses of one literal each. -/
theorem Derived.units_of_conflict {names : List String} {initial : ClauseSet} {engine : Engine}
    (derived : Derived initial engine) (normal : engine.set.Normal names) (first second : Nat)
    (ended : engine.state = .conflict (first, second)) :
    first < second ∧ ∃ literal, engine.set.get? first = some ⟨[literal]⟩ ∧
      engine.set.get? second = some ⟨[literal.negate]⟩ := by
  obtain ⟨ordered, conflict⟩ := derived.complementary (first, second) ended
  obtain ⟨⟨own⟩, ⟨opposite⟩, left, right, complementary⟩ :=
    (Scan.isConflict_iff engine.set (first, second)).mp conflict
  have member := (engine.set.mem_toList_iff ⟨opposite⟩).mpr ⟨second, right⟩
  obtain ⟨literal, rfl, rfl⟩ := (Clause.isComplementaryTo_iff_of_nodup ⟨own⟩ ⟨opposite⟩
    (normal.distinct _ member)).mp complementary
  refine ⟨Nat.lt_of_le_of_ne ordered ?_, literal, left, right⟩
  rintro rfl
  rw [left] at right
  have same : literal = literal.negate := by simpa using right
  exact Literal.negate_ne literal same.symm

/-- What holds of a run between two calls, given the set it began with. -/
structure Sound (initial : ClauseSet) (engine : Engine) : Prop where
  /-- The initial clauses have the keys they had. -/
  given : ∀ key, key < initial.size → engine.set.get? key = initial.get? key
  /-- No call takes a clause from its key. -/
  kept : ∀ (more : List Call) (key : Nat) (clause : Clause),
    engine.set.get? key = some clause → (engine.calls more).set.get? key = some clause
  proper : ∀ key clause, engine.set.get? key = some clause → clause.isTautology = false
  apart : ∀ first second clause other, first ≠ second → engine.set.get? first = some clause →
    engine.set.get? second = some other → clause.sameAs other = false
  /-- The clauses hold where those of the initial set do. -/
  evaluate : ∀ valuation, engine.set.evaluate valuation = initial.evaluate valuation
  resolvents : engine.set.size = initial.size + engine.resolvents
  conflict : ∀ first second, engine.state = .conflict (first, second) →
    first < second ∧ second < engine.set.size ∧
      ∃ literal, engine.set.get? first = some ⟨[literal]⟩ ∧
        engine.set.get? second = some ⟨[literal.negate]⟩ ∧
        engine.conflict? = some (⟨[literal]⟩, ⟨[literal.negate]⟩)
  /-- Any two clauses are meant, in both orders. -/
  saturated : engine.state = .saturated → ∀ first second clause other,
    engine.set.get? first = some clause → engine.set.get? second = some other →
      clause.isComplementaryTo other = false ∧
        ∀ literal ∈ clause.literals, literal.negate ∈ other.literals →
          (clause.resolveWith other).isTautology = true ∨
            ∃ key found, engine.set.get? key = some found ∧
              found.sameAs (clause.resolveWith other) = true
  ended : engine.state ≠ .active → ∀ more : List Call, engine.calls more = engine

theorem sound_calls (lists : List (List Literal)) (config : Config) (made : List Call) :
    let initial := ClauseSet.ofList (lists.map Clause.ofList)
    Sound initial ((start config initial).calls made) := by
  intro initial
  have begun : initial.Normal initial.atoms :=
    ClauseSet.normal_ofList _ (Clause.nodup_of_mem_map_ofList lists)
  have derived := derived_calls config initial made
  have normal : ((start config initial).calls made).set.Normal initial.atoms :=
    normal_calls begun made
  have closed : ((start config initial).calls made).state = .saturated →
      Clause.Closed ((start config initial).calls made).set.toList := closed_calls begun made
  have counted := resolvents_calls config initial made
  generalize (start config initial).calls made = engine at derived normal closed counted ⊢
  have member : ∀ key clause, engine.set.get? key = some clause → clause ∈ engine.set.toList :=
    fun key clause found => (engine.set.mem_toList_iff clause).mpr ⟨key, found⟩
  constructor
  case given => exact fun key inside => (derived.recorded.get?_initial key inside).symm
  case kept => exact fun more => ClauseSet.get?_of_kept (kept_calls engine more)
  case proper => exact fun key clause found => normal.proper clause (member key clause found)
  case apart => exact normal.sameAs_eq_false
  case evaluate => exact derived.recorded.evaluate_eq
  case resolvents => exact counted
  case conflict =>
    intro first second ended
    obtain ⟨before, literal, left, right⟩ := derived.units_of_conflict normal first second ended
    refine ⟨before, engine.set.get?_lt second _ right, literal, left, right, ?_⟩
    rw [conflict?, ended]
    simp [left, right]
  case saturated =>
    intro ended first second clause other left right
    have inside := member first clause left
    have inside' := member second other right
    refine ⟨(closed ended).free clause inside other inside', ?_⟩
    intro literal own inverse
    cases tautology : (clause.resolveWith other).isTautology with
    | true => exact Or.inl rfl
    | false =>
        exact Or.inr (ClauseSet.exists_sameAs_resolveWith (closed ended) clause other inside
          inside' literal own inverse tautology)
  case ended => exact calls_of_ne_active engine

/-- The clauses `p` and `!p || q`, which leave `q` to be added. -/
def implication : List (List Literal) :=
  [[⟨"p", false⟩], [⟨"p", true⟩, ⟨"q", false⟩]]

def implicationRefuted : List (List Literal) :=
  [[⟨"p", false⟩], [⟨"p", true⟩, ⟨"q", false⟩], [⟨"q", true⟩]]

theorem sound_calls_implication :
    let closed :=
      (start { workers := 2 } (.ofList (implication.map Clause.ofList))).calls [.refute {}]
    let refuted :=
      (start {} (.ofList (implicationRefuted.map Clause.ofList))).calls [.step {}, .refute {}]
    closed.state = .saturated ∧ closed.set.size = 3 ∧
      (∀ valuation, closed.set.evaluate valuation =
        (ClauseSet.ofList (implication.map Clause.ofList)).evaluate valuation) ∧
      refuted.state = .conflict (0, 4) ∧
      (∃ literal, refuted.set.get? 0 = some ⟨[literal]⟩ ∧
        refuted.set.get? 4 = some ⟨[literal.negate]⟩ ∧
        refuted.conflict? = some (⟨[literal]⟩, ⟨[literal.negate]⟩)) ∧
      ∀ more, refuted.calls more = refuted := by
  intro closed refuted
  have saturated : closed.state = .saturated := by decide
  have ended : refuted.state = .conflict (0, 4) := by decide
  have unfinished : refuted.state ≠ .active := fun active => by simp [active] at ended
  have sound := sound_calls implication { workers := 2 } [.refute {}]
  have sound' := sound_calls implicationRefuted {} [.step {}, .refute {}]
  exact ⟨saturated, by decide, sound.evaluate, ended, (sound'.conflict 0 4 ended).2.2,
    sound'.ended unfinished⟩

end Engine
end Clausal
