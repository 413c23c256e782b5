set_option autoImplicit false

namespace Clausal.Ordered

variable {α : Type} [Ord α]

/-- Before the first value which is not smaller. -/
def insert (value : α) : List α → List α
  | [] => [value]
  | head :: rest =>
      if (compare head value).isLT then head :: insert value rest else value :: head :: rest

def sort : List α → List α
  | [] => []
  | value :: rest => insert value (sort rest)

theorem insert_perm (value : α) (values : List α) :
    (insert value values).Perm (value :: values) := by
  induction values with
  | nil => exact .refl _
  | cons head rest ih =>
      rw [insert]
      split
      · exact (ih.cons head).trans (.swap value head rest)
      · exact .refl _

theorem sort_perm (values : List α) : (sort values).Perm values := by
  induction values with
  | nil => exact .refl _
  | cons value rest ih => exact (insert_perm value (sort rest)).trans (ih.cons value)

theorem insert_pairwise [Std.TransOrd α] (value : α) (values : List α)
    (ordered : values.Pairwise fun first second => (compare first second).isLE) :
    (insert value values).Pairwise fun first second => (compare first second).isLE := by
  induction values with
  | nil => simp [insert]
  | cons head rest ih =>
      obtain ⟨before, orderedRest⟩ := List.pairwise_cons.mp ordered
      rw [insert]
      split
      · rename_i smaller
        refine List.pairwise_cons.mpr ⟨fun other member => ?_, ih orderedRest⟩
        rcases List.mem_cons.mp ((insert_perm value rest).mem_iff.mp member) with rfl | member
        · exact (show ∀ order : Ordering, order.isLT → order.isLE by decide) _ smaller
        · exact before other member
      · rename_i notSmaller
        have least : (compare value head).isLE := by
          have swapped : compare value head = (compare head value).swap := Std.OrientedCmp.eq_swap
          rw [swapped, Ordering.isLE_swap]
          cases order : compare head value <;> simp_all
        refine List.pairwise_cons.mpr ⟨fun other member => ?_, ordered⟩
        rcases List.mem_cons.mp member with rfl | member
        · exact least
        · exact Std.TransCmp.isLE_trans least (before other member)

theorem sort_pairwise [Std.TransOrd α] (values : List α) :
    (sort values).Pairwise fun first second => (compare first second).isLE := by
  induction values with
  | nil => exact .nil
  | cons value rest ih => exact insert_pairwise value (sort rest) ih

theorem sort_eq_sort_iff [Std.TransOrd α] [Std.LawfulEqOrd α] (values others : List α) :
    sort values = sort others ↔ values.Perm others := by
  constructor
  · intro same
    exact (sort_perm values).symm.trans (same ▸ sort_perm others)
  · intro rearranged
    refine List.Perm.eq_of_pairwise (fun first second _ _ le ge => ?_) (sort_pairwise values)
      (sort_pairwise others)
      ((sort_perm values).trans (rearranged.trans (sort_perm others).symm))
    exact Std.LawfulEqCmp.compare_eq_iff_eq.mp (Std.OrientedCmp.isLE_antisymm le ge)

theorem mem_sort (value : α) (values : List α) : value ∈ sort values ↔ value ∈ values :=
  (sort_perm values).mem_iff

/-- The values of a list, each once. -/
def distinct [BEq α] (values : List α) : List α :=
  sort values.eraseDups

theorem mem_distinct [BEq α] [LawfulBEq α] (value : α) (values : List α) :
    value ∈ distinct values ↔ value ∈ values := by
  rw [distinct, mem_sort, List.mem_eraseDups]

theorem nodup_eraseDups {β : Type} [BEq β] [LawfulBEq β] (values : List β) :
    values.eraseDups.Nodup := by
  match values with
  | [] => simp
  | value :: rest =>
      rw [List.eraseDups_cons, List.nodup_cons]
      refine ⟨fun member => ?_, nodup_eraseDups _⟩
      have kept := List.mem_eraseDups.mp member
      simp at kept
termination_by values.length
decreasing_by exact Nat.lt_succ_of_le (List.length_filter_le _ _)

theorem nodup_distinct [BEq α] [LawfulBEq α] (values : List α) : (distinct values).Nodup :=
  (sort_perm values.eraseDups).nodup_iff.mpr (nodup_eraseDups values)

/-- No two values of the list are equal, so the order is strict. -/
theorem distinct_pairwise [BEq α] [LawfulBEq α] [Std.TransOrd α] [Std.LawfulEqOrd α]
    (values : List α) :
    (distinct values).Pairwise fun first second => (compare first second).isLT := by
  have ordered := sort_pairwise values.eraseDups
  refine ((nodup_distinct values).and ordered).imp fun {first second} both => ?_
  have notEqual : compare first second ≠ .eq := fun equal =>
    both.1 (Std.LawfulEqCmp.compare_eq_iff_eq.mp equal)
  revert notEqual
  have le := both.2
  revert le
  cases compare first second <;> decide

end Clausal.Ordered
