import Clausal.Proofs.Saturation.Workers
import Mathlib.Data.List.Flatten
import Mathlib.Data.List.Nodup

set_option autoImplicit false

/- Where there is no conflict, the workers between them find what a scan in order
finds, to the last entry. Of equal resolvents each worker keeps the first in its own
rows, and the first of these is the first of all. -/
namespace Clausal

instance : Std.TransOrd Staged :=
  inferInstanceAs (Std.TransCmp (compareLex (compareOn fun staged : Staged => staged.parents.1)
    (compareOn fun staged : Staged => staged.parents.2)))

theorem Staged.parents_eq_of_isLE (entry other : Staged) (le : (compare entry other).isLE)
    (ge : (compare other entry).isLE) : entry.parents = other.parents := by
  have equal := Std.OrientedCmp.isLE_antisymm le ge
  obtain ⟨first, second⟩ := compareLex_eq_eq.mp equal
  exact Prod.ext (Std.LawfulEqCmp.compare_eq_iff_eq.mp first)
    (Std.LawfulEqCmp.compare_eq_iff_eq.mp second)

theorem Staged.isLE_iff (entry other : Staged) :
    (compare entry other).isLE ↔ toLex entry.parents ≤ toLex other.parents := by
  change (compareLex (compareOn Prod.fst) (compareOn Prod.snd) entry.parents other.parents).isLE ↔ _
  rw [Prod.Lex.toLex_le_toLex, compareLex, compareOn, compareOn]
  rcases Nat.lt_trichotomy entry.parents.1 other.parents.1 with less | same | more
  · rw [Nat.compare_eq_lt.mpr less]
    exact iff_of_true rfl (Or.inl less)
  · rw [Nat.compare_eq_eq.mpr same]
    simp [same, Nat.isLE_compare]
  · rw [Nat.compare_eq_gt.mpr more]
    refine iff_of_false Bool.false_ne_true ?_
    omega

namespace Scan

/-- Entries in order of parents, none of which share theirs with another. -/
structure InOrder (staged : List Staged) : Prop where
  sorted : staged.Pairwise fun entry other => (compare entry other).isLE
  settled : ∀ entry ∈ staged, ∀ other ∈ staged, entry.parents = other.parents → entry = other

theorem InOrder.sublist {staged part : List Staged} (ordered : InOrder staged)
    (sub : part.Sublist staged) : InOrder part where
  sorted := ordered.sorted.sublist sub
  settled entry member other member' :=
    ordered.settled entry (sub.subset member) other (sub.subset member')

theorem isLE_of_mem_firsts (seen : List (List Literal)) (staged : List Staged)
    (sorted : staged.Pairwise fun entry other => (compare entry other).isLE) (entry : Staged)
    (kept : entry ∈ firsts seen staged) (other : Staged) (member : other ∈ staged)
    (same : other.clause.canonical = entry.clause.canonical) : (compare entry other).isLE := by
  induction staged generalizing seen with
  | nil => cases member
  | cons head rest ih =>
      obtain ⟨before, sortedRest⟩ := List.pairwise_cons.mp sorted
      have unseen := not_mem_of_mem_firsts seen _ entry kept
      rw [firsts] at kept
      split at kept
      · rename_i known
        rcases List.mem_cons.mp member with rfl | later
        · exact absurd (same ▸ known) unseen
        · exact ih seen sortedRest kept later
      · rcases List.mem_cons.mp kept with rfl | keptLater
        · rcases List.mem_cons.mp member with rfl | later
          · exact Std.ReflCmp.isLE_rfl
          · exact before other later
        · rcases List.mem_cons.mp member with rfl | later
          · have outside := not_mem_of_mem_firsts _ rest entry keptLater
            rw [same] at outside
            exact absurd List.mem_cons_self outside
          · exact ih _ sortedRest keptLater later

/-- Kept are the entries which no other of their canonical form comes before. -/
theorem mem_firsts_iff {staged : List Staged} (ordered : InOrder staged) (entry : Staged) :
    entry ∈ firsts [] staged ↔ entry ∈ staged ∧ ∀ other ∈ staged,
      other.clause.canonical = entry.clause.canonical → (compare entry other).isLE := by
  constructor
  · intro kept
    exact ⟨(firsts_sublist [] staged).subset kept,
      isLE_of_mem_firsts [] staged ordered.sorted entry kept⟩
  · intro ⟨member, least⟩
    rcases exists_mem_firsts [] staged entry member with known | ⟨first, kept, same⟩
    · cases known
    · have inside := (firsts_sublist [] staged).subset kept
      have le := isLE_of_mem_firsts [] staged ordered.sorted first kept entry member same.symm
      have parents := Staged.parents_eq_of_isLE entry first (least first inside same) le
      rw [ordered.settled entry member first inside parents]
      exact kept

theorem nodup_firsts (seen : List (List Literal)) (staged : List Staged) :
    (firsts seen staged).Nodup :=
  (firsts_pairwise seen staged).imp fun unlike same => unlike (congrArg (·.clause.canonical) same)

section

variable {whole : List Staged} {parts : List (List Staged)}

/-- Of the firsts of all parts the first of a canonical form is the first in the whole. -/
theorem least_firsts_iff (ordered : InOrder whole) (each : ∀ part ∈ parts, part.Sublist whole)
    (covered : ∀ entry ∈ whole, ∃ part ∈ parts, entry ∈ part) (entry : Staged) :
    ((entry ∈ parts.flatMap (firsts []) ∧ ∀ other ∈ parts.flatMap (firsts []),
        other.clause.canonical = entry.clause.canonical → (compare entry other).isLE) ↔
      entry ∈ whole ∧ ∀ other ∈ whole,
        other.clause.canonical = entry.clause.canonical → (compare entry other).isLE) := by
  have inside : ∀ entry ∈ parts.flatMap (firsts []), entry ∈ whole := by
    intro entry kept
    obtain ⟨part, listed, member⟩ := List.mem_flatMap.mp kept
    exact (each part listed).subset ((firsts_sublist [] part).subset member)
  constructor
  · intro ⟨kept, least⟩
    refine ⟨inside entry kept, fun other member same => ?_⟩
    obtain ⟨part, listed, own⟩ := covered other member
    rcases exists_mem_firsts [] part other own with known | ⟨first, keptFirst, sameFirst⟩
    · cases known
    · have le := isLE_of_mem_firsts [] part (ordered.sublist (each part listed)).sorted first
        keptFirst other own sameFirst.symm
      have listedFirst := List.mem_flatMap.mpr ⟨part, listed, keptFirst⟩
      exact Std.TransCmp.isLE_trans (least first listedFirst (sameFirst.trans same)) le
  · intro ⟨member, least⟩
    obtain ⟨part, listed, own⟩ := covered entry member
    have sub := each part listed
    have kept := (mem_firsts_iff (ordered.sublist sub) entry).mpr
      ⟨own, fun other other_own => least other (sub.subset other_own)⟩
    exact ⟨List.mem_flatMap.mpr ⟨part, listed, kept⟩,
      fun other otherKept => least other (inside other otherKept)⟩

/-- Keeping the first of equal clauses in every part, and then once more among what
the parts have kept, is keeping the first of the whole. -/
theorem firsts_sort_firsts (ordered : InOrder whole) (each : ∀ part ∈ parts, part.Sublist whole)
    (covered : ∀ entry ∈ whole, ∃ part ∈ parts, entry ∈ part) :
    firsts [] (Ordered.sort (parts.flatMap (firsts []))) = firsts [] whole := by
  have inside : ∀ entry ∈ Ordered.sort (parts.flatMap (firsts [])), entry ∈ whole := by
    intro entry member
    rw [Ordered.mem_sort, List.mem_flatMap] at member
    obtain ⟨part, listed, kept⟩ := member
    exact (each part listed).subset ((firsts_sublist [] part).subset kept)
  have merged : InOrder (Ordered.sort (parts.flatMap (firsts []))) :=
    ⟨Ordered.sort_pairwise _, fun entry member other member' =>
      ordered.settled entry (inside entry member) other (inside other member')⟩
  have same : ∀ entry, entry ∈ firsts [] (Ordered.sort (parts.flatMap (firsts []))) ↔
      entry ∈ firsts [] whole := by
    intro entry
    rw [mem_firsts_iff merged, mem_firsts_iff ordered, ← least_firsts_iff ordered each covered]
    simp only [Ordered.mem_sort]
  have antisymm : ∀ entry other, entry ∈ firsts [] (Ordered.sort (parts.flatMap (firsts []))) →
      other ∈ firsts [] whole → (compare entry other).isLE → (compare other entry).isLE →
        entry = other := by
    intro entry other member member' le ge
    exact ordered.settled entry (inside entry ((firsts_sublist _ _).subset member)) other
      ((firsts_sublist _ _).subset member') (Staged.parents_eq_of_isLE entry other le ge)
  -- Both lists are in order and without repeats, so to have the same members is enough.
  exact List.Perm.eq_of_pairwise antisymm (merged.sorted.sublist (firsts_sublist _ _))
    (ordered.sorted.sublist (firsts_sublist _ _))
    ((List.perm_ext_iff_of_nodup (nodup_firsts _ _) (nodup_firsts _ _)).mpr same)

end

/-- What the pairs of some rows have to offer, in order. -/
def offers (set : ClauseSet) (rows : List Nat) : List Staged :=
  (pairsOf set.size rows).filterMap (resolvent? set)

theorem mem_offers (set : ClauseSet) (rows : List Nat) (entry : Staged) :
    entry ∈ offers set rows ↔ entry.parents.1 ∈ rows ∧ entry.parents.1 ≤ entry.parents.2 ∧
      resolvent? set entry.parents = some entry := by
  rw [offers, List.mem_filterMap]
  constructor
  · rintro ⟨pair, listed, offered⟩
    obtain ⟨row, ordered, _⟩ := (mem_pairsOf set.size rows pair).mp listed
    rw [((resolvent?_eq_some_iff set pair entry).mp offered).1]
    exact ⟨row, ordered, offered⟩
  · intro ⟨row, ordered, offered⟩
    refine ⟨entry.parents, (mem_pairsOf set.size rows _).mpr ⟨row, ordered, ?_⟩, offered⟩
    exact (lt_of_resolvent? set _ entry offered).2

theorem inOrder_offers (set : ClauseSet) (rows : List Nat)
    (increasing : rows.Pairwise fun row later => row < later) : InOrder (offers set rows) where
  sorted := by
    rw [offers, List.pairwise_filterMap]
    refine (pairsOf_pairwise set.size rows increasing).imp ?_
    intro pair later before entry offered other offered'
    rw [Staged.isLE_iff, ((resolvent?_eq_some_iff set pair entry).mp offered).1,
      ((resolvent?_eq_some_iff set later other).mp offered').1]
    exact le_of_lt before
  settled entry member other member' same := by
    have offered := ((mem_offers set rows entry).mp member).2.2
    have offered' := ((mem_offers set rows other).mp member').2.2
    rw [same, offered'] at offered
    exact (Option.some.inj offered).symm

/-- The rows which are dealt out are all rows, each to one worker. -/
theorem deal_perm (size count : Nat) (manned : 0 < count) :
    ((List.range count).flatMap fun index => (Worker.start size count index).rows).Perm
      (List.range size) := by
  have once : ∀ index, (Worker.start size count index).rows.Nodup := fun index =>
    List.nodup_range.filter _
  refine (List.perm_ext_iff_of_nodup ?_ List.nodup_range).mpr fun row => ?_
  · refine List.nodup_flatMap.mpr ⟨fun index _ => once index, ?_⟩
    refine List.nodup_range.imp fun {index other} unlike row member member' => ?_
    rw [Worker.mem_start] at member member'
    exact unlike (member.2.symm.trans member'.2)
  · simp only [List.mem_flatMap, Worker.mem_start, List.mem_range]
    constructor
    · intro ⟨_, _, inside, _⟩
      exact inside
    · intro inside
      exact ⟨row % count, Nat.mod_lt row manned, inside, rfl⟩

section

variable {set : ClauseSet} {rows : List Nat} {done : Sweep}

theorem staged_of_free (finds : Sweep.Finds set (pairsOf set.size rows) [] {} done)
    (free : done.conflict = none) : done.staged.toList = firsts [] (offers set rows) := by
  rw [finds.staged, takeWhile_of_free finds free]
  exact List.nil_append _

theorem pairs_of_free (finds : Sweep.Finds set (pairsOf set.size rows) [] {} done)
    (free : done.conflict = none) : done.pairs = (pairsOf set.size rows).length := by
  rw [finds.pairs, takeWhile_of_free finds free, Nat.min_eq_right (Nat.le_succ _)]
  exact Nat.zero_add _

end

/-- What so many workers report when each has checked all rows dealt to it. -/
def dealt (set : ClauseSet) (count : Nat) : List Scan :=
  (List.range count).map fun index =>
    ((pairsOf set.size (Worker.start set.size count index).rows).foldl (Sweep.visit set) {}).toScan

theorem map_run_of_free (set : ClauseSet) (count : Nat) (schedule : Schedule)
    (free : (Worker.run set count schedule).any Worker.hasConflict = false) :
    ((Worker.run set count schedule).map fun worker => worker.sweep.toScan) = dealt set count := by
  apply List.ext_getElem (by simp [dealt, Worker.length_run])
  intro index inside _
  rw [List.length_map] at inside
  have place := List.getElem?_eq_getElem inside
  obtain ⟨done, rest, split, swept, left⟩ := Worker.underway_run set count schedule index _ place
  rw [free, Worker.rows_of_mem_run set count schedule index _ place] at left
  have finished : rest = [] := by simpa [eq_comm] using left
  rw [finished, List.append_nil] at split
  simp only [List.getElem_map, dealt, List.getElem_range]
  rw [swept, split]

theorem conflict_run_of_free (set : ClauseSet) (count : Nat) (schedule : Schedule)
    (free : ∀ scan ∈ (Worker.run set count schedule).map fun worker => worker.sweep.toScan,
      scan.conflict = none) :
    (Worker.run set count schedule).any Worker.hasConflict = false := by
  rw [List.any_eq_false]
  intro worker member
  rw [Worker.hasConflict, free _ (List.mem_map_of_mem member)]
  exact Bool.false_ne_true

section

variable {set : ClauseSet} {count : Nat} (manned : 0 < count)
  (free : ∀ scan ∈ dealt set count, scan.conflict = none)

include free

theorem flatMap_staged_dealt : ((dealt set count).flatMap fun scan => scan.staged.toList) =
    ((List.range count).map fun index =>
      offers set (Worker.start set.size count index).rows).flatMap (firsts []) := by
  rw [dealt, List.flatMap_map, List.flatMap_map]
  apply List.flatMap_congr
  intro index member
  exact staged_of_free (finds_pairsOf set _) (free _ (List.mem_map_of_mem member))

theorem map_pairs_dealt : (dealt set count).map Scan.pairs =
    (List.range count).map fun index =>
      (pairsOf set.size (Worker.start set.size count index).rows).length := by
  rw [dealt, List.map_map]
  apply List.map_congr_left
  intro index member
  exact pairs_of_free (finds_pairsOf set _) (free _ (List.mem_map_of_mem member))

include manned

theorem firsts_dealt : firsts [] (Ordered.sort
      ((dealt set count).flatMap fun scan => scan.staged.toList)) =
    firsts [] (offers set (List.range set.size)) := by
  rw [flatMap_staged_dealt free]
  apply firsts_sort_firsts
  · exact inOrder_offers set _ List.pairwise_lt_range
  · intro part listed
    obtain ⟨index, _, rfl⟩ := List.mem_map.mp listed
    exact ((List.filter_sublist).flatMap _).filterMap _
  · intro entry member
    obtain ⟨row, ordered, offered⟩ := (mem_offers set _ entry).mp member
    refine ⟨_, List.mem_map_of_mem (List.mem_range.mpr (Nat.mod_lt entry.parents.1 manned)), ?_⟩
    refine (mem_offers set _ entry).mpr ⟨?_, ordered, offered⟩
    exact (Worker.mem_start _ _ _ _).mpr ⟨List.mem_range.mp row, rfl⟩

theorem pairs_merge_dealt : (merge (dealt set count)).pairs =
    (pairsOf set.size (List.range set.size)).length := by
  calc
    (merge (dealt set count)).pairs = ((dealt set count).map Scan.pairs).sum := by
      rw [List.sum_eq_foldl, List.foldl_map]
      rfl
    _ = (pairsOf set.size ((List.range count).flatMap fun index =>
          (Worker.start set.size count index).rows)).length := by
      rw [map_pairs_dealt free, pairsOf, List.flatMap_assoc, List.length_flatMap]
      rfl
    _ = (pairsOf set.size (List.range set.size)).length :=
      ((deal_perm set.size count manned).flatMap_right _).length_eq

end

theorem parallel_eq_sequential (set : ClauseSet) (workers : Nat) (schedule : Schedule)
    (free : (parallel set workers schedule).conflict = none) :
    (parallel set workers schedule).staged = (sequential set).staged ∧
      (parallel set workers schedule).pairs = (sequential set).pairs := by
  have manned : 0 < max 1 (min workers (max set.size 1)) :=
    Nat.lt_of_lt_of_le Nat.one_pos (Nat.le_max_left _ _)
  have sequentialFree : (sequential set).conflict = none :=
    (faithful_sequential set).conflict_eq_none_iff.mpr
      ((faithful_parallel set workers schedule).free free)
  have finds := finds_pairsOf set (List.range set.size)
  have all := ((foldl_leastPair_eq_none_iff _ none).mp free).2
  have same := map_run_of_free set _ schedule (conflict_run_of_free set _ schedule all)
  rw [same] at all
  unfold parallel at free ⊢
  dsimp only at free ⊢
  rw [same] at free ⊢
  constructor
  · apply Array.toList_inj.mp
    rw [staged_merge_of_free _ free, firsts_dealt manned all]
    exact (staged_of_free finds sequentialFree).symm
  · rw [pairs_merge_dealt manned all]
    exact (pairs_of_free finds sequentialFree).symm

end Scan
end Clausal
