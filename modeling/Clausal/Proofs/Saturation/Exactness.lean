import Clausal.Proofs.Saturation.Order
import Mathlib.Algebra.BigOperators.Intervals

set_option autoImplicit false

namespace Clausal.Scan

/-- The clauses at these keys leave the given one, up to order, when they are resolved on one
of their clashes. It need not be the first. -/
def Yields (set : ClauseSet) (pair : Pair) (clause : Clause) : Prop :=
  ∃ first second literal, set.get? pair.1 = some first ∧ set.get? pair.2 = some second ∧
    literal ∈ first.literals ∧ literal.negate ∈ second.literals ∧
      (Clause.resolveOn literal first second).sameAs clause = true

/-- The pairs of a scan up to the given one, and with it. -/
def upTo (size : Nat) (last : Pair) : Finset Pair :=
  (Finset.range size ×ˢ Finset.range size).filter fun pair =>
    pair.1 ≤ pair.2 ∧ toLex pair ≤ toLex last

def visited (set : ClauseSet) : List Pair :=
  (pairsOf set.size (List.range set.size)).takeWhile fun pair => !isConflict set pair

theorem length_pairsOf (size : Nat) :
    (pairsOf size (List.range size)).length = size * (size + 1) / 2 := by
  calc
    (pairsOf size (List.range size)).length = ((List.range size).map (size - ·)).sum := by
      simp [pairsOf, rowPairs, List.length_flatMap]
    _ = ∑ row ∈ Finset.range size, (size - row) := rfl
    _ = ∑ row ∈ Finset.range size, (size - 1 - row + 1) := by
      refine Finset.sum_congr rfl fun row member => ?_
      have inside := Finset.mem_range.mp member
      omega
    _ = ∑ row ∈ Finset.range size, (row + 1) := Finset.sum_range_reflect (· + 1) size
    _ = ∑ row ∈ Finset.range (size + 1), row := (Finset.sum_range_succ' id size).symm
    _ = size * (size + 1) / 2 := by
      rw [Finset.sum_range_id, Nat.add_sub_cancel, Nat.mul_comm]

section

variable {size : Nat} {before after : List Pair} {pair : Pair}
  (split : pairsOf size (List.range size) = before ++ pair :: after)

include split

theorem mem_before_iff (other : Pair) :
    other ∈ before ↔
      other.1 ≤ other.2 ∧ other.2 < size ∧ toLex other < toLex pair := by
  have ordered := pairsOf_pairwise size (List.range size) List.pairwise_lt_range
  have listed := mem_pairsOf size (List.range size) other
  rw [split] at ordered listed
  obtain ⟨_, rest, earlier⟩ := List.pairwise_append.mp ordered
  constructor
  · intro member
    obtain ⟨_, within⟩ := listed.mp (List.mem_append_left _ member)
    exact ⟨within.1, within.2, earlier other member pair List.mem_cons_self⟩
  · intro ⟨increasing, inside, less⟩
    have row : other.1 ∈ List.range size := List.mem_range.mpr (by omega)
    rcases List.mem_append.mp (listed.mpr ⟨row, increasing, inside⟩) with found | later
    · exact found
    · rcases List.mem_cons.mp later with rfl | later
      · exact absurd less (lt_irrefl _)
      · exact absurd less ((List.pairwise_cons.mp rest).1 other later).asymm

theorem card_upTo : (upTo size pair).card = before.length + 1 := by
  have listed := mem_pairsOf size (List.range size) pair
  rw [split] at listed
  obtain ⟨_, increasing, inside⟩ := listed.mp (List.mem_append_right _ List.mem_cons_self)
  have distinct : (before ++ [pair]).Nodup := by
    have ordered := pairsOf_pairwise size (List.range size) List.pairwise_lt_range
    rw [split, List.append_cons] at ordered
    exact (List.pairwise_append.mp ordered).1.imp fun less same => less.ne (congrArg toLex same)
  have same : (before ++ [pair]).toFinset = upTo size pair := by
    ext other
    simp only [List.mem_toFinset, List.mem_append, List.mem_singleton, upTo, Finset.mem_filter,
      Finset.mem_product, Finset.mem_range, mem_before_iff split,
      le_iff_lt_or_eq (a := toLex other)]
    constructor
    · rintro (⟨within, below, less⟩ | rfl)
      · exact ⟨⟨by omega, below⟩, within, Or.inl less⟩
      · exact ⟨⟨by omega, inside⟩, increasing, Or.inr rfl⟩
    · rintro ⟨⟨_, below⟩, within, less | equal⟩
      · exact Or.inl ⟨within, below, less⟩
      · exact Or.inr (toLex.injective equal)
  rw [← same, List.toFinset_card_of_nodup distinct, List.length_append, List.length_singleton]

end

theorem mem_visited_of_lt (set : ClauseSet) (pair other : Pair) (member : pair ∈ visited set)
    (increasing : other.1 ≤ other.2) (inside : other.2 < set.size)
    (less : toLex other < toLex pair) : other ∈ visited set := by
  obtain ⟨before, after, split⟩ := List.append_of_mem member
  have whole : visited set ++ _ = pairsOf set.size (List.range set.size) :=
    List.takeWhile_append_dropWhile
  rw [split, List.append_assoc, List.cons_append] at whole
  rw [split]
  exact List.mem_append_left _ ((mem_before_iff whole.symm other).mpr ⟨increasing, inside, less⟩)

theorem isConflict_of_mem_visited (set : ClauseSet) (pair : Pair) (member : pair ∈ visited set) :
    isConflict set pair = false := by
  simpa using List.mem_takeWhile_imp member

theorem conflict_sequential (set : ClauseSet) (pair : Pair)
    (ended : (sequential set).conflict = some pair) :
    (∀ other, other.1 ≤ other.2 → isConflict set other = true → toLex pair ≤ toLex other) ∧
      (sequential set).pairs = (upTo set.size pair).card := by
  have finds := finds_pairsOf set (List.range set.size)
  have found := finds.conflict.symm.trans ended
  obtain ⟨conflict, before, after, split, free⟩ := List.find?_eq_some_iff_append.mp found
  constructor
  · intro other increasing conflict'
    by_contra less
    have member := (mem_before_iff split other).mpr
      ⟨increasing, (lt_of_isConflict set other conflict').2, not_le.mp less⟩
    have apart := free other member
    rw [conflict'] at apart
    cases apart
  · have stops :
        (before ++ pair :: after).takeWhile (fun pair => !isConflict set pair) = before := by
      rw [List.takeWhile_append_of_pos free, List.takeWhile_cons_of_neg (by simp [conflict]),
        List.append_nil]
    rw [card_upTo split]
    refine finds.pairs.trans ?_
    rw [split, stops, List.length_append, List.length_cons]
    simp

theorem staged_sequential (set : ClauseSet) :
    (sequential set).staged.toList = firsts [] ((visited set).filterMap (resolvent? set)) :=
  (finds_pairsOf set (List.range set.size)).staged.trans (List.nil_append _)

theorem increasing_sequential (set : ClauseSet) :
    (sequential set).staged.toList.Pairwise fun entry other =>
      toLex entry.parents < toLex other.parents := by
  rw [staged_sequential]
  refine List.Pairwise.sublist (firsts_sublist [] _) (List.pairwise_filterMap.mpr ?_)
  refine List.Pairwise.imp ?_ ((pairsOf_pairwise set.size (List.range set.size)
    List.pairwise_lt_range).sublist (List.takeWhile_sublist _))
  intro pair later before entry offered other offered'
  rw [((resolvent?_eq_some_iff set pair entry).mp offered).1,
    ((resolvent?_eq_some_iff set later other).mp offered').1]
  exact before

theorem inOrder_visited (set : ClauseSet) :
    InOrder ((visited set).filterMap (resolvent? set)) :=
  (inOrder_offers set (List.range set.size) List.pairwise_lt_range).sublist
    ((List.takeWhile_sublist _).filterMap _)

theorem exists_offer_of_yields (set : ClauseSet) (pair : Pair) (clause : Clause)
    (yields : Yields set pair clause) (free : isConflict set pair = false)
    (proper : clause.isTautology = false) (fresh : set.contains clause = false) :
    ∃ entry, resolvent? set pair = some entry ∧ entry.clause.canonical = clause.canonical := by
  obtain ⟨first, second, literal, left, right, inside, inverse, same⟩ := yields
  rw [Clause.sameAs_iff_canonical_eq _ _ (Clause.nodup_resolveOn _ _ _)] at same
  rw [isConflict, left, right] at free
  have proper' : (Clause.resolveOn literal first second).isTautology = false := by
    rw [Clause.isTautology_congr _ _ fun kept => Clause.mem_iff_of_canonical_eq _ _ kept same,
      proper]
  have fresh' : set.contains (Clause.resolveOn literal first second) = false := by
    rw [ClauseSet.contains, same]
    exact fresh
  exact ⟨_, resolvent?_of_clash set pair first second left right free literal inside inverse
    proper' fresh', same⟩

theorem least_sequential (set : ClauseSet) (entry : Staged)
    (member : entry ∈ (sequential set).staged.toList) (pair : Pair) (increasing : pair.1 ≤ pair.2)
    (yields : Yields set pair entry.clause) : toLex entry.parents ≤ toLex pair := by
  -- An earlier pair which yields the same would have been met, and its resolvent staged.
  obtain ⟨_, _, _, _, _, _, _, proper, fresh⟩ := (resolvent?_eq_some_iff set _ entry).mp
    ((faithful_sequential set).staged entry member).2
  rw [staged_sequential] at member
  obtain ⟨parents, listed, made⟩ := List.mem_filterMap.mp ((firsts_sublist [] _).subset member)
  rw [← ((resolvent?_eq_some_iff set parents entry).mp made).1] at listed
  have inside : pair.2 < set.size := by
    obtain ⟨_, second, _, _, right, _⟩ := yields
    exact set.get?_lt pair.2 second right
  by_contra later
  have earlier := mem_visited_of_lt set entry.parents pair listed increasing inside
    (not_le.mp later)
  obtain ⟨other, offered, same⟩ := exists_offer_of_yields set pair entry.clause yields
    (isConflict_of_mem_visited set pair earlier) proper fresh
  have first := isLE_of_mem_firsts [] _ (inOrder_visited set).sorted entry member other
    (List.mem_filterMap.mpr ⟨pair, earlier, offered⟩) same
  rw [Staged.isLE_iff, ((resolvent?_eq_some_iff set pair other).mp offered).1] at first
  exact later first

section

variable {names : List String} {set : ClauseSet} {scan : Scan}

theorem Faithful.parents (faithful : scan.Faithful set) (valid : set.Valid) (entry : Staged)
    (member : entry ∈ scan.staged.toList) :
    entry.parents.1 < entry.parents.2 ∧ Yields set entry.parents entry.clause ∧
      ∃ first second, set.get? entry.parents.1 = some first ∧
        set.get? entry.parents.2 = some second ∧ entry.clause = first.resolveWith second := by
  -- No clause is resolved with itself, as it would have to be a tautology.
  obtain ⟨ordered, offered⟩ := faithful.staged entry member
  obtain ⟨_, first, second, left, right, able, resolved, _⟩ :=
    (resolvent?_eq_some_iff set _ entry).mp offered
  have clash := Clause.exists_clash_of_canResolveWith first second able
  refine ⟨?ordered, ?yields, first, second, left, right, resolved.symm⟩
  case ordered =>
    refine Nat.lt_of_le_of_ne ordered fun same => ?_
    rw [same, right, Option.some.injEq] at left
    rw [← left] at clash
    have proper := valid.proper second ((set.mem_toList_iff second).mpr ⟨_, right⟩)
    rw [(Clause.isTautology_iff second).mpr clash] at proper
    cases proper
  case yields =>
    obtain ⟨pivot, own, inverse, made⟩ := Clause.exists_resolveWith_eq first second clash
    refine ⟨first, second, pivot, left, right, own, inverse, ?_⟩
    rw [← made, resolved, Clause.sameAs_iff]
    exact ⟨rfl, fun _ inside => inside⟩

theorem Faithful.nodup_staged (faithful : scan.Faithful set) (entry : Staged)
    (member : entry ∈ scan.staged.toList) : entry.clause.literals.Nodup := by
  obtain ⟨_, first, second, _, _, _, resolved, _⟩ :=
    (resolvent?_eq_some_iff set _ entry).mp (faithful.staged entry member).2
  rw [← resolved]
  exact Clause.nodup_resolveWith first second

theorem Faithful.exists_sameAs_iff (faithful : scan.Faithful set) (clause : Clause) :
    (∃ entry ∈ scan.staged.toList, entry.clause.sameAs clause = true) ↔
      clause.canonical ∈ scan.forms := by
  rw [forms, List.mem_map]
  refine exists_congr fun entry => and_congr_right fun member => ?_
  exact Clause.sameAs_iff_canonical_eq _ _ (faithful.nodup_staged entry member)

/-- A form which is missing is that of a clause which two of the set yield. -/
theorem lacks_canonical_iff (normal : set.Normal names) (clause : Clause) :
    set.Lacks clause.canonical ↔
      clause.isTautology = false ∧ (∀ member ∈ set.toList, member.sameAs clause = false) ∧
        ∃ pair, Yields set pair clause := by
  have absent : clause.canonical ∉ set.forms ↔
      ∀ member ∈ set.toList, member.sameAs clause = false := by
    simp only [set.mem_forms_iff, not_exists, not_and, Bool.eq_false_iff, ne_eq]
    refine forall₂_congr fun member listed => not_congr ?_
    exact (Clause.sameAs_iff_canonical_eq member clause (normal.distinct member listed)).symm
  rw [ClauseSet.Lacks, absent]
  constructor
  · intro ⟨missing, first, listed, second, listed', literal, own, inverse, proper, made⟩
    obtain ⟨key, left⟩ := (set.mem_toList_iff first).mp listed
    obtain ⟨key', right⟩ := (set.mem_toList_iff second).mp listed'
    refine ⟨?_, missing, (key, key'), first, second, literal, left, right, own, inverse, ?_⟩
    · rw [← Clause.isTautology_congr _ _ fun kept => Clause.mem_iff_of_canonical_eq _ _ kept made,
        proper]
    · exact (Clause.sameAs_iff_canonical_eq _ _ (Clause.nodup_resolveOn _ _ _)).mpr made
  · intro ⟨proper, missing, pair, first, second, literal, left, right, own, inverse, same⟩
    have made := (Clause.sameAs_iff_canonical_eq _ _ (Clause.nodup_resolveOn _ _ _)).mp same
    refine ⟨missing, first, (set.mem_toList_iff first).mpr ⟨_, left⟩, second,
      (set.mem_toList_iff second).mpr ⟨_, right⟩, literal, own, inverse, ?_, made⟩
    rw [Clause.isTautology_congr _ _ fun kept => Clause.mem_iff_of_canonical_eq _ _ kept made,
      proper]

end

/-- The account of a scan: what it comes to, what it stages, and in which order. -/
structure Exact (set : ClauseSet) (scan : Scan) : Prop where
  /-- If there is a complementary pair the least is found, and the pairs up to it are counted. -/
  conflict : (∃ pair, pair.1 ≤ pair.2 ∧ isConflict set pair = true) →
    ∃ pair, scan.conflict = some pair ∧ pair.1 ≤ pair.2 ∧ isConflict set pair = true ∧
      (∀ other, other.1 ≤ other.2 → isConflict set other = true → toLex pair ≤ toLex other) ∧
      scan.pairs = (upTo set.size pair).card
  /-- Otherwise all pairs are counted, and what is staged is what is missing. -/
  free : (∀ pair, pair.1 ≤ pair.2 → isConflict set pair = false) →
    scan.conflict = none ∧ scan.pairs = set.size * (set.size + 1) / 2 ∧
      ∀ literals, (∃ entry ∈ scan.staged.toList,
          entry.clause.sameAs (Clause.ofList literals) = true) ↔
        (Clause.ofList literals).isTautology = false ∧
          (∀ member ∈ set.toList, member.sameAs (Clause.ofList literals) = false) ∧
          ∃ pair, Yields set pair (Clause.ofList literals)
  proper : ∀ entry ∈ scan.staged.toList, entry.clause.isTautology = false
  fresh : ∀ entry ∈ scan.staged.toList, ∀ member ∈ set.toList,
    member.sameAs entry.clause = false
  apart : scan.staged.toList.Pairwise fun entry other =>
    entry.clause.sameAs other.clause = false
  increasing : scan.staged.toList.Pairwise fun entry other =>
    toLex entry.parents < toLex other.parents
  /-- The parents yield the clause, in the way in which any clauses are resolved. -/
  parents : ∀ entry ∈ scan.staged.toList, entry.parents.1 < entry.parents.2 ∧
    Yields set entry.parents entry.clause ∧
      ∃ first second, set.get? entry.parents.1 = some first ∧
        set.get? entry.parents.2 = some second ∧ entry.clause = first.resolveWith second
  least : ∀ entry ∈ scan.staged.toList, ∀ pair : Pair, pair.1 < pair.2 →
    Yields set pair entry.clause → toLex entry.parents ≤ toLex pair

theorem exact_sequential (lists : List (List Literal)) :
    let set := ClauseSet.ofList (lists.map Clause.ofList)
    Exact set (sequential set) := by
  intro set
  have normal := ClauseSet.normal_ofList _ (Clause.nodup_of_mem_map_ofList lists)
  have faithful := faithful_sequential set
  have distinct := faithful.nodup_staged
  constructor
  case conflict =>
    rintro ⟨pair, increasing, conflict⟩
    have found : (sequential set).conflict ≠ none := by
      intro free
      rw [faithful.free free pair increasing] at conflict
      cases conflict
    obtain ⟨least, ended⟩ := Option.ne_none_iff_exists'.mp found
    obtain ⟨ordered, complementary⟩ := faithful.conflict least ended
    exact ⟨least, ended, ordered, complementary, conflict_sequential set least ended⟩
  case free =>
    intro apart
    have free := faithful.conflict_eq_none_iff.mpr apart
    refine ⟨free, ?_, fun literals => ?_⟩
    · exact (pairs_of_free (finds_pairsOf set _) free).trans (length_pairsOf set.size)
    · rw [faithful.exists_sameAs_iff, faithful.mem_forms_iff normal.toValid free,
        lacks_canonical_iff normal]
  case proper =>
    intro entry member
    obtain ⟨_, _, _, _, _, _, _, proper, _⟩ :=
      (resolvent?_eq_some_iff set _ entry).mp (faithful.staged entry member).2
    exact proper
  case fresh =>
    intro entry member clause listed
    obtain ⟨_, _, _, _, _, _, _, _, fresh⟩ :=
      (resolvent?_eq_some_iff set _ entry).mp (faithful.staged entry member).2
    rw [Bool.eq_false_iff, ne_eq,
      Clause.sameAs_iff_canonical_eq clause _ (normal.distinct clause listed)]
    intro same
    rw [(normal.contains_iff entry.clause).mpr ⟨clause, listed, same⟩] at fresh
    cases fresh
  case apart =>
    refine faithful.apart.imp_of_mem fun {entry other} member _ unlike => ?_
    rw [Bool.eq_false_iff, ne_eq, Clause.sameAs_iff_canonical_eq _ _ (distinct entry member)]
    exact unlike
  case increasing => exact increasing_sequential set
  case parents => exact faithful.parents normal.toValid
  case least =>
    exact fun entry member pair less => least_sequential set entry member pair (Nat.le_of_lt less)

end Clausal.Scan
