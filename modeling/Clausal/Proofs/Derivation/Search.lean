import Clausal.Proofs.Derivation.Graph
import Mathlib.Algebra.BigOperators.Group.Finset.Basic

set_option autoImplicit false

/- Origins found by a search which follows edges back from node to node, with a queue of
nodes to be met. A node may be queued again and again, and edges may go round in a loop;
what ends the search is that edges are followed from a node only when it is met first. -/
namespace Clausal

def Derivation.edgeCount (record : Derivation) : Nat :=
  ∑ place ∈ Finset.range record.entries.length, (record.edgesInto (.entry place)).length

/-- A search on its way: the nodes to be met, those which were, and the keys found. -/
structure Search where
  queue : List Source
  seen : List Source := []
  found : List Nat := []
  deriving DecidableEq

namespace Search

open Clausal.Derivation

/-- One edge into a node: the node is an origin, or it is one to go on from. -/
def follow (record : Derivation) (node : Source) (search : Search) : Source → Search
  | .input => { search with found := (record.keyOn? node).toList ++ search.found }
  | .entry place => { search with queue := search.queue ++ [.entry place] }

/-- Meets the next node. The edges into it are followed in the order in which they are listed. -/
def step (record : Derivation) (incoming : Source → List Source) (search : Search) : Search :=
  match search.queue with
  | [] => search
  | node :: rest =>
      if node ∈ search.seen then { search with queue := rest }
      else (incoming node).foldl (follow record node) ⟨rest, node :: search.seen, search.found⟩

def start (record : Derivation) (keys : List Nat) : Search :=
  { queue := keys.filterMap record.source? }

section

variable (record : Derivation) (node : Source)

theorem foldl_follow (edges : List Source) (search : Search) :
    (edges.foldl (follow record node) search).queue = search.queue ++ edges.filter (· ≠ .input) ∧
      (edges.foldl (follow record node) search).seen = search.seen ∧
        ∀ key, key ∈ (edges.foldl (follow record node) search).found ↔
          key ∈ search.found ∨ record.keyOn? node = some key ∧ .input ∈ edges := by
  induction edges generalizing search with
  | nil => simp
  | cons edge rest ih =>
      obtain ⟨queue, seen, found⟩ := ih (follow record node search edge)
      cases edge with
      | input =>
          refine ⟨queue, seen, fun key => (found key).trans ?_⟩
          simp only [follow, List.mem_append, Option.mem_toList, List.mem_cons, true_or,
            and_true]
          tauto
      | entry place =>
          refine ⟨queue.trans ?_, seen, fun key => (found key).trans ?_⟩
          · simp [follow]
          · simp [follow]

end

/-- A node is one which was met or which is to be. -/
def Has (search : Search) (node : Source) : Prop :=
  node ∈ search.seen ∨ node ∈ search.queue

/-- What holds at any time of a search from some nodes. -/
structure Valid (record : Derivation) (starts : List Source) (search : Search) : Prop where
  wanted : ∀ node, search.Has node → ∃ start ∈ starts, record.Leads node start
  started : ∀ start ∈ starts, search.Has start
  followed : ∀ node ∈ search.seen, ∀ source, record.Edge source node →
    source = .input ∨ search.Has source
  kept : ∀ key, key ∈ search.found ↔
    ∃ node ∈ search.seen, record.keyOn? node = some key ∧ record.Edge .input node

theorem valid_start (record : Derivation) (keys : List Nat) :
    Valid record (keys.filterMap record.source?) (start record keys) where
  wanted node has := ⟨node, has.resolve_left List.not_mem_nil, .refl⟩
  started _ member := Or.inr member
  followed _ impossible := absurd impossible List.not_mem_nil
  kept key := by simp [start]

section

variable {record : Derivation} {incoming : Source → List Source} {search : Search}

theorem step_of_done (done : search.queue = []) : step record incoming search = search := by
  rw [step, done]

section

variable {node : Source} {rest : List Source} (next : search.queue = node :: rest)

include next

theorem step_of_seen (met : node ∈ search.seen) :
    step record incoming search = { search with queue := rest } := by
  rw [step, next]
  exact if_pos met

theorem step_of_new (unmet : node ∉ search.seen) :
    step record incoming search =
      (incoming node).foldl (follow record node) ⟨rest, node :: search.seen, search.found⟩ := by
  rw [step, next]
  exact if_neg unmet

end

section

variable (listed : ∀ node, (incoming node).Perm (record.edgesInto node))

include listed

theorem mem_incoming_iff (source node : Source) :
    source ∈ incoming node ↔ record.Edge source node :=
  (listed node).mem_iff

theorem Valid.step_account {starts : List Source} (valid : Valid record starts search)
    (node : Source) (rest : List Source) (next : search.queue = node :: rest) :
    (∀ other, other ∈ (step record incoming search).seen ↔ other = node ∨ other ∈ search.seen) ∧
      (∀ other, (step record incoming search).Has other ↔
        search.Has other ∨ other ≠ .input ∧ record.Edge other node) ∧
        ∀ key, key ∈ (step record incoming search).found ↔
          key ∈ search.found ∨ record.keyOn? node = some key ∧ record.Edge .input node := by
  -- What a step does is the same, whether the node was met before or not: when it is met again,
  -- there is nothing new to be followed from it.
  unfold Has
  rw [next]
  by_cases met : node ∈ search.seen
  · rw [step_of_seen next met]
    have followed := valid.followed node met
    have kept := fun key => (valid.kept key).mpr
    unfold Has at followed
    rw [next] at followed
    refine ⟨?seen, ?has, ?found⟩
    case seen =>
      intro other
      rw [or_iff_right_of_imp]
      exact fun same => same ▸ met
    case has =>
      intro other
      have again := followed other
      have head : other = node → other ∈ search.seen := fun same => same ▸ met
      rw [List.mem_cons] at again ⊢
      tauto
    case found =>
      intro key
      rw [or_iff_left_of_imp]
      exact fun origin => kept key ⟨node, met, origin⟩
  · obtain ⟨queue, seen, found⟩ :=
      foldl_follow record node (incoming node) ⟨rest, node :: search.seen, search.found⟩
    rw [step_of_new next met, queue, seen]
    simp only [List.mem_cons, List.mem_append, List.mem_filter, decide_eq_true_eq,
      mem_incoming_iff listed] at found ⊢
    refine ⟨fun _ => True.intro, fun other => ?_, found⟩
    tauto

theorem Valid.step {starts : List Source} (valid : Valid record starts search) :
    Valid record starts (step record incoming search) := by
  cases next : search.queue with
  | nil =>
      rw [step_of_done next]
      exact valid
  | cons node rest =>
      obtain ⟨seen, has, found⟩ := valid.step_account listed node rest next
      have later : ∀ other, search.Has other → (Search.step record incoming search).Has other :=
        fun other before => (has other).mpr (Or.inl before)
      constructor
      case wanted =>
        intro other member
        rcases (has other).mp member with before | ⟨_, edge⟩
        · exact valid.wanted other before
        · have here : search.Has node := Or.inr (next ▸ List.mem_cons_self)
          obtain ⟨start, given, leads⟩ := valid.wanted node here
          exact ⟨start, given, .head edge leads⟩
      case started => exact fun start given => later start (valid.started start given)
      case followed =>
        intro other member source edge
        rcases (seen other).mp member with same | before
        · by_cases input : source = .input
          · exact Or.inl input
          · exact Or.inr ((has source).mpr (Or.inr ⟨input, same ▸ edge⟩))
        · exact (valid.followed other before source edge).imp_right (later source)
      case kept =>
        intro key
        simp only [found, seen, valid.kept, exists_eq_or_imp]
        exact or_comm

theorem Valid.iterate {starts : List Source} (valid : Valid record starts search) (steps : Nat) :
    Valid record starts ((Search.step record incoming)^[steps] search) := by
  induction steps with
  | zero => exact valid
  | succ steps ih =>
      rw [Function.iterate_succ_apply']
      exact ih.step listed

end

/-- Once nothing is queued, all that leads to a wanted node was met, but for the input. -/
theorem Valid.seen_of_leads {starts : List Source} (valid : Valid record starts search)
    (done : search.queue = []) (node start : Source) (leads : record.Leads node start)
    (given : start ∈ starts) : node = .input ∨ node ∈ search.seen := by
  have met : ∀ other, search.Has other → other ∈ search.seen := by
    intro other has
    rw [Has, done] at has
    exact has.resolve_right List.not_mem_nil
  refine leads.head_induction_on ?_ ?_
  · exact Or.inr (met start (valid.started start given))
  · intro source target edge _ before
    have seen := before.resolve_left edge.ne_input
    exact (valid.followed target seen source edge).imp_right (met source)

theorem Valid.mem_found_iff {starts : List Source} (valid : Valid record starts search)
    (done : search.queue = []) (key : Nat) :
    key ∈ search.found ↔ ∃ start ∈ starts, record.Originates key start := by
  rw [valid.kept]
  constructor
  · intro ⟨node, seen, named, edge⟩
    obtain ⟨start, given, leads⟩ := valid.wanted node (Or.inl seen)
    exact ⟨start, given, node, named, edge, leads⟩
  · intro ⟨start, given, node, named, edge, leads⟩
    have seen := valid.seen_of_leads done node start leads given
    exact ⟨node, seen.resolve_left edge.ne_input, named, edge⟩

end

section

variable (record : Derivation)

/-- The places of entries which were not met. -/
def unmet (seen : List Source) : Finset Nat :=
  (Finset.range record.entries.length).filter fun place => .entry place ∉ seen

/-- The edges into nodes which were not met, each to be followed yet. -/
def unfollowed (seen : List Source) : Nat :=
  ∑ place ∈ unmet record seen, (record.edgesInto (.entry place)).length

theorem mem_unmet_iff (seen : List Source) (place : Nat) :
    place ∈ unmet record seen ↔ place < record.entries.length ∧ .entry place ∉ seen := by
  rw [unmet, Finset.mem_filter, Finset.mem_range]

theorem unmet_cons (seen : List Source) (place : Nat) :
    unmet record (.entry place :: seen) = (unmet record seen).erase place := by
  ext other
  rw [Finset.mem_erase, mem_unmet_iff, mem_unmet_iff, List.mem_cons, Source.entry.injEq]
  tauto

theorem unfollowed_cons (seen : List Source) (node : Source) (new : node ∉ seen) :
    (record.edgesInto node).length + unfollowed record (node :: seen) = unfollowed record seen := by
  cases node with
  | input =>
      have same : unmet record (.input :: seen) = unmet record seen := by
        ext place
        simp [mem_unmet_iff]
      rw [unfollowed, same]
      exact Nat.zero_add _
  | entry place =>
      rw [unfollowed, unmet_cons]
      by_cases inside : place ∈ unmet record seen
      · exact Finset.add_sum_erase _ (fun place => (record.edgesInto (.entry place)).length) inside
      · have absent : record.edgesInto (.entry place) = [] := by
          refine List.eq_nil_iff_forall_not_mem.mpr fun source edge => inside ?_
          obtain ⟨entry, found, _⟩ := (edge_entry_iff source place).mp edge
          exact (mem_unmet_iff record seen place).mpr ⟨entryAt?_lt record place entry found, new⟩
        rw [Finset.erase_eq_of_notMem inside, absent]
        exact Nat.zero_add _

/-- A bound on the steps to come: a node which is queued is passed over or met, and then
queues no more than the edges into it. -/
def remaining (search : Search) : Nat :=
  search.queue.length + unfollowed record search.seen

theorem remaining_start_le (keys : List Nat) :
    remaining record (start record keys) ≤ keys.length + record.edgeCount := by
  have every : unmet record [] = Finset.range record.entries.length := by
    ext place
    simp [mem_unmet_iff]
  have edges : unfollowed record [] = record.edgeCount := by rw [unfollowed, every, edgeCount]
  exact Nat.add_le_add (List.length_filterMap_le _ _) (Nat.le_of_eq edges)

end

section

variable {record : Derivation} {incoming : Source → List Source}
  (listed : ∀ node, (incoming node).Perm (record.edgesInto node))

include listed

theorem remaining_step_lt (search : Search) (waiting : search.queue ≠ []) :
    remaining record (step record incoming search) < remaining record search := by
  obtain ⟨node, rest, next⟩ := List.exists_cons_of_ne_nil waiting
  unfold remaining
  rw [next, List.length_cons]
  by_cases met : node ∈ search.seen
  · rw [step_of_seen next met]
    dsimp only
    omega
  · obtain ⟨queue, seen, _⟩ :=
      foldl_follow record node (incoming node) ⟨rest, node :: search.seen, search.found⟩
    rw [step_of_new next met, queue, seen, List.length_append]
    have followed := unfollowed_cons record search.seen node met
    rw [← (listed node).length_eq] at followed
    have within := List.length_filter_le (· ≠ .input) (incoming node)
    dsimp only
    omega

/-- The search ends, though there be loops. -/
theorem exists_done (search : Search) :
    ∃ steps ≤ remaining record search, ((step record incoming)^[steps] search).queue = [] := by
  induction bound : remaining record search using Nat.strongRecOn generalizing search with
  | ind bound ih =>
      by_cases done : search.queue = []
      · exact ⟨0, Nat.zero_le _, done⟩
      · have less := remaining_step_lt listed search done
        rw [bound] at less
        obtain ⟨steps, within, ended⟩ := ih _ less _ rfl
        exact ⟨steps + 1, by omega, ended⟩

end

end Search

namespace Derivation

/-- Whatever is noted, in whichever order, again and of whichever parents, the search from
some keys ends, in no more steps than there are keys and edges, and finds their origins
however the edges into a node are listed. These are the keys, in increasing order, of
the clauses of the input from which the keys are reached. -/
theorem origins_reachability (notes : List Note) (incoming : Source → List Source)
    (listed : ∀ node, (incoming node).Perm ((ofNotes notes).edgesInto node)) :
    let record := ofNotes notes
    (∀ keys, ∃ steps ≤ keys.length + record.edgeCount,
      let ended := (Search.step record incoming)^[steps] (.start record keys)
      ended.queue = [] ∧ Ordered.distinct ended.found = record.origins keys) ∧
      (∀ keys, (record.origins keys).Pairwise (· < ·)) ∧
        (∀ keys key, key ∈ record.origins keys ↔ ∃ wanted ∈ keys, ∃ current,
          record.source? wanted = some current ∧ record.Originates key current) ∧
          (∀ first later, record.origins (first ++ later) =
            Ordered.distinct (record.origins first ++ record.origins later)) ∧
            ∀ key, record.isInput key = true → key ∈ record.origins [key] := by
  intro record
  have member := fun keys key =>
    mem_origins_iff_originates record keys key (backward_ofNotes notes)
  refine ⟨?search, origins_pairwise record, member, ?union, ?input⟩
  case search =>
    intro keys
    obtain ⟨steps, within, done⟩ := Search.exists_done listed (.start record keys)
    have valid := (Search.valid_start record keys).iterate listed steps
    refine ⟨steps, within.trans (Search.remaining_start_le record keys), done, ?_⟩
    apply distinct_eq_origins
    intro key
    rw [valid.mem_found_iff done, member]
    simp only [List.mem_filterMap]
    constructor
    · exact fun ⟨current, ⟨wanted, given, named⟩, originates⟩ =>
        ⟨wanted, given, current, named, originates⟩
    · exact fun ⟨wanted, given, current, named, originates⟩ =>
        ⟨current, ⟨wanted, given, named⟩, originates⟩
  case union =>
    intro first later
    refine (distinct_eq_origins record _ _ fun key => ?_).symm
    rw [List.mem_append, member, member, member]
    simp only [List.mem_append, or_and_right, exists_or]
  case input =>
    intro key input
    obtain ⟨current, named, originates⟩ := originates_of_isInput record key input
    exact (member [key] key).mpr ⟨key, .head _, current, named, originates⟩

/-- An entry which is a source of itself, a key noted again after it was used, a parent which
is unknown and another which was left out. The last counts as the input. -/
theorem origins_reachability_looping :
    let record := ofNotes [.input 2, .input 0, .resolvent 4 (2, 0) 1, .resolvent 5 (5, 4) 2,
      .input 2, .resolvent 6 (4, 9) 3, .resolvent 7 (3, 4) 3]
    let incoming := fun node => (record.edgesInto node).reverse
    (∃ steps ≤ [7, 5].length + record.edgeCount,
      let ended := (Search.step record incoming)^[steps] (.start record [7, 5])
      ended.queue = [] ∧ Ordered.distinct ended.found = [0, 2, 7]) ∧
      record.Edge (.entry 3) (.entry 3) ∧ record.Originates 2 (.entry 3) ∧
        record.isInput 7 = true ∧ 7 ∈ record.origins [7] ∧ record.origins [3] = [] := by
  intro record incoming
  have general := origins_reachability _ incoming fun node => List.reverse_perm _
  have both : record.origins [7, 5] = [0, 2, 7] := by decide
  have search := general.1 [7, 5]
  rw [both] at search
  have input : record.isInput 7 = true := by decide
  have reached : ∃ current, record.source? 5 = some current ∧ record.Originates 2 current := by
    simpa using (general.2.2.1 [5] 2).mp (by decide)
  obtain ⟨current, named, originates⟩ := reached
  have latest : record.source? 5 = some (.entry 3) := by decide
  rw [latest, Option.some.injEq] at named
  exact ⟨search, by decide, named ▸ originates, input, general.2.2.2.2 7 input, by decide⟩

end Derivation
end Clausal
