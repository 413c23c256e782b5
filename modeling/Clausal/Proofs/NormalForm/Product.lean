import Clausal.Proofs.NormalForm.Settled
import Mathlib.Algebra.Group.Nat.Defs
import Mathlib.Data.List.Forall2

set_option autoImplicit false

/- A disjunction spread one conjunction at a time. The first conjunction gives way to each of
its conjuncts in turn, which may be conjunctions again, and the lists this makes are spread the
same way. That ends, and leaves the disjunctions of one conjunct of each part, in the order of
a product whose first factor varies slowest. -/
namespace Clausal

section

variable {α : Type}

/-- Rows of one item of each list, one row for each way to choose the places of the items. The
rows are in the lexicographic order of these places. -/
def Crossed (lists rows : List (List α)) : Prop :=
  ∃ places : List (List Nat), places.Pairwise (· < ·) ∧
    (∀ chosen, chosen ∈ places ↔
      List.Forall₂ (fun place list => place < list.length) chosen lists) ∧
    rows.map (List.map some) = places.map (List.zipWith (fun list place => list[place]?) lists)

theorem mem_choices (lists : List (List α)) (choice : List α) :
    choice ∈ choices lists ↔ List.Forall₂ (· ∈ ·) choice lists := by
  induction lists generalizing choice with
  | nil => simp [choices]
  | cons options rest ih =>
      simp only [choices, List.mem_flatMap, List.mem_map, ih, List.forall₂_cons_right_iff]
      constructor
      · rintro ⟨option, member, others, fits, rfl⟩
        exact ⟨option, others, member, fits, rfl⟩
      · rintro ⟨option, others, member, fits, rfl⟩
        exact ⟨option, member, others, fits, rfl⟩

theorem length_choices (lists : List (List α)) :
    (choices lists).length = (lists.map List.length).prod := by
  induction lists with
  | nil => rfl
  | cons options rest ih =>
      simp only [choices, List.length_flatMap, List.length_map, ih, List.map_cons, List.prod_cons,
        List.map_const', List.sum_replicate_nat]

/-- Choices from sorted lists are in lexicographic order. -/
theorem choices_pairwise (lists : List (List Nat))
    (sorted : ∀ list ∈ lists, list.Pairwise (· < ·)) : (choices lists).Pairwise (· < ·) := by
  induction lists with
  | nil => exact List.pairwise_singleton _ _
  | cons options rest ih =>
      obtain ⟨first, others⟩ := List.forall_mem_cons.mp sorted
      rw [choices, List.pairwise_flatMap]
      constructor
      · intro option _
        rw [List.pairwise_map]
        exact (ih others).imp fun less => List.cons_lt_cons_iff.mpr (.inr ⟨rfl, less⟩)
      · apply first.imp
        intro option later less one inOne other inOther
        obtain ⟨_, _, rfl⟩ := List.mem_map.mp inOne
        obtain ⟨_, _, rfl⟩ := List.mem_map.mp inOther
        exact List.cons_lt_cons_iff.mpr (.inl less)

theorem map_some_choices (lists : List (List α)) :
    (choices lists).map (List.map some) =
      (choices (lists.map fun list => List.range list.length)).map
        (List.zipWith (fun list place => list[place]?) lists) := by
  induction lists with
  | nil => rfl
  | cons options rest ih =>
      have items : options.map some = (List.range options.length).map (options[·]?) :=
        List.ext_getElem (by simp) fun place _ _ => by simp
      calc
        (choices (options :: rest)).map (List.map some) =
            (options.map some).flatMap fun item =>
              ((choices rest).map (List.map some)).map (item :: ·) := by
          simp only [choices, List.map_flatMap, List.flatMap_map, List.map_map, Function.comp_def,
            List.map_cons]
        _ = _ := by
          rw [items, ih]
          simp only [List.map_cons, choices, List.map_flatMap, List.flatMap_map, List.map_map,
            Function.comp_def, List.zipWith_cons_cons]

theorem mapM_eq_some_map {β : Type} (read : α → Option β) (value : α → β) (items : List α)
    (each : ∀ item ∈ items, read item = some (value item)) :
    items.mapM read = some (items.map value) := by
  induction items with
  | nil => rfl
  | cons item rest ih =>
      obtain ⟨first, others⟩ := List.forall_mem_cons.mp each
      rw [List.mapM_cons, first, ih others]
      rfl

theorem crossed_choices (lists : List (List α)) : Crossed lists (choices lists) := by
  refine ⟨_, ?sorted, ?complete, map_some_choices lists⟩
  case sorted =>
    apply choices_pairwise
    exact List.forall_mem_map.mpr fun list _ => List.pairwise_lt_range
  case complete =>
    intro chosen
    rw [mem_choices, List.forall₂_map_right_iff]
    simp only [List.mem_range]

end

namespace Formula

/-- What a call on the parts of a disjunction comes to before any further call. -/
inductive Turn where
  /-- No part is a conjunction, and the disjunction stands. -/
  | join
  /-- The answers to a call on each of these lists are to make a conjunction. -/
  | split (lists : List (List Formula))
  /-- The part which was found to be a conjunction is none when it is taken out. -/
  | unreachable

/-- The first conjunction is taken out, and each of its conjuncts put in where it was. -/
def turn (disjuncts : List Formula) : Turn :=
  match disjuncts.findIdx? isConjunction with
  | none => .join
  | some place =>
      match disjuncts[place]? with
      | some (.and conjuncts) =>
          .split (conjuncts.map fun conjunct =>
            (disjuncts.eraseIdx place).insertIdx place conjunct)
      | _ => .unreachable

/-- The calls which a call makes in its turn. -/
def Calls (caller called : List Formula) : Prop :=
  ∃ lists, turn caller = .split lists ∧ called ∈ lists

theorem leaves_or_first (disjuncts : List Formula) :
    (∀ conjuncts, .and conjuncts ∉ disjuncts) ∨
      ∃ before conjuncts after, disjuncts = before ++ .and conjuncts :: after ∧
        ∀ others, .and others ∉ before := by
  induction disjuncts with
  | nil => exact .inl fun _ => List.not_mem_nil
  | cons disjunct rest ih =>
      cases disjunct with
      | and conjuncts => exact .inr ⟨[], conjuncts, rest, rfl, fun _ => List.not_mem_nil⟩
      | _ =>
          rcases ih with leaves | ⟨before, conjuncts, after, rfl, leaves⟩
          · exact .inl (by simpa using leaves)
          · exact .inr ⟨_ :: before, conjuncts, after, rfl, by simpa using leaves⟩

theorem isConjunction_of_leaf (leaf : Formula) (single : ∀ conjuncts, leaf ≠ .and conjuncts) :
    leaf.isConjunction = false := by
  cases leaf with
  | and conjuncts => exact absurd rfl (single conjuncts)
  | _ => rfl

theorem findIdx?_of_leaves (leaves : List Formula)
    (single : ∀ conjuncts, .and conjuncts ∉ leaves) : leaves.findIdx? isConjunction = none := by
  rw [List.findIdx?_eq_none_iff]
  exact fun leaf member =>
    isConjunction_of_leaf leaf fun conjuncts same => single conjuncts (same ▸ member)

theorem turn_of_leaves (disjuncts : List Formula)
    (leaves : ∀ conjuncts, .and conjuncts ∉ disjuncts) : turn disjuncts = .join := by
  rw [turn, findIdx?_of_leaves disjuncts leaves]

theorem turn_of_first (before conjuncts after : List Formula)
    (leaves : ∀ others, .and others ∉ before) :
    turn (before ++ .and conjuncts :: after) =
      .split (conjuncts.map fun conjunct => before ++ conjunct :: after) := by
  have found : (before ++ .and conjuncts :: after).findIdx? isConjunction = some before.length := by
    have here : (.and conjuncts :: after).findIdx? isConjunction = some 0 := by
      rw [List.findIdx?_cons]
      rfl
    rw [List.findIdx?_append, findIdx?_of_leaves before leaves, here]
    simp
  have taken : (before ++ .and conjuncts :: after)[before.length]? = some (.and conjuncts) := by
    simp
  have without : (before ++ .and conjuncts :: after).eraseIdx before.length = before ++ after := by
    simp [List.eraseIdx_append]
  have put : ∀ conjunct, (before ++ after).insertIdx before.length conjunct =
      before ++ conjunct :: after := by
    intro conjunct
    exact List.modifyTailIdx_add _ 0 before after
  simp only [turn, found, taken, without, put]

/-- Every call leaves out at least the node of the conjunction. -/
theorem sizeAll_lt_of_calls (caller called : List Formula) (calls : Calls caller called) :
    sizeAll called < sizeAll caller := by
  obtain ⟨lists, splits, member⟩ := calls
  rcases leaves_or_first caller with leaves | ⟨before, conjuncts, after, rfl, leaves⟩
  · rw [turn_of_leaves caller leaves] at splits
    cases splits
  · rw [turn_of_first before conjuncts after leaves] at splits
    cases splits
    obtain ⟨conjunct, inside, rfl⟩ := List.mem_map.mp member
    have smaller := size_le_sizeAll conjuncts conjunct inside
    simp only [sizeAll_append, sizeAll, size]
    omega

/-- The disjunction of the parts with its conjunctions spread from the first on, or nothing if
the unreachable is reached anywhere on the way. -/
def distributeParts (disjuncts : List Formula) : Option Formula :=
  match made : turn disjuncts with
  | .join => some (.or disjuncts)
  | .split lists => do
      let conjuncts ← lists.attach.mapM fun ⟨list, member⟩ =>
        have := sizeAll_lt_of_calls disjuncts list ⟨lists, made, member⟩
        distributeParts list
      return .and conjuncts
  | .unreachable => none
termination_by sizeAll disjuncts

theorem distributeParts_of_join (disjuncts : List Formula) (joins : turn disjuncts = .join) :
    distributeParts disjuncts = some (.or disjuncts) := by
  unfold distributeParts
  split <;> simp_all

theorem distributeParts_of_split (disjuncts : List Formula) (lists : List (List Formula))
    (splits : turn disjuncts = .split lists) :
    distributeParts disjuncts = do return .and (← lists.mapM distributeParts) := by
  unfold distributeParts
  split <;> simp_all

theorem spread_of_first (before conjuncts after : List Formula)
    (leaves : ∀ others, .and others ∉ before) :
    spread [] (before ++ .and conjuncts :: after) =
      .and (conjuncts.map fun conjunct => spread [] (before ++ conjunct :: after)) := by
  simp only [spread_append_of_leaves [] before _ leaves, spread, overConjuncts, overConjunctsAll_eq]

theorem calls_wellFounded : WellFounded fun called caller => Calls caller called :=
  Subrelation.wf (sizeAll_lt_of_calls _ _) (measure sizeAll).wf

theorem distributeParts_eq (disjuncts : List Formula) :
    distributeParts disjuncts = some (spread [] disjuncts) := by
  -- The induction is on the calls, as the lists they are made on are not parts of one another.
  induction disjuncts using calls_wellFounded.induction with
  | h disjuncts ih =>
      rcases leaves_or_first disjuncts with leaves | ⟨before, conjuncts, after, rfl, leaves⟩
      · rw [distributeParts_of_join disjuncts (turn_of_leaves disjuncts leaves),
          spread_of_leaves [] disjuncts leaves, List.nil_append]
      · have splits := turn_of_first before conjuncts after leaves
        have answers := mapM_eq_some_map distributeParts (spread []) _ fun list member =>
          ih list ⟨_, splits, member⟩
        rw [distributeParts_of_split _ _ splits, answers, List.map_map,
          spread_of_first before conjuncts after leaves]
        rfl

/-- On any parts of a disjunction the calls come to an end, none of them meeting the unreachable,
and the answer is what distribution makes of the disjunction. Its conjuncts, however deep, are
the disjunctions of one conjunct of each part, in lexicographic order with the first part
varying slowest, and so as many as the product of the counts of these. -/
theorem distributeParts_crossed (disjuncts : List Formula) :
    Acc (fun called caller => Calls caller called) disjuncts ∧
      ∃ result, distributeParts disjuncts = some result ∧
        (or disjuncts).distributeNode = result ∧
        (∃ rows, result.conjuncts = rows.map .or ∧ Crossed (disjuncts.map conjuncts) rows) ∧
        result.conjuncts.length = (disjuncts.map fun part => part.conjuncts.length).prod := by
  have leaves : (spread [] disjuncts).conjuncts =
      (choices (disjuncts.map conjuncts)).map .or := conjuncts_spread [] disjuncts
  refine ⟨calls_wellFounded.apply disjuncts, _, distributeParts_eq disjuncts, rfl,
    ⟨_, leaves, crossed_choices _⟩, ?_⟩
  rw [leaves, List.length_map, length_choices, List.map_map]
  rfl

example : (or [.and [.atom "a", .and [.atom "b", .and []]], .atom "c",
    .and [.atom "d", .atom "e"]]).distributeNode =
      .and [.and [.or [.atom "a", .atom "c", .atom "d"], .or [.atom "a", .atom "c", .atom "e"]],
        .and [.and [.or [.atom "b", .atom "c", .atom "d"], .or [.atom "b", .atom "c", .atom "e"]],
          .and []]] := rfl

end Formula
end Clausal
