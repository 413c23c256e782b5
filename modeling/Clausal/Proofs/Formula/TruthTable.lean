import Clausal.Formula.Value
import Clausal.Proofs.Formula.Atoms
import Mathlib.Data.List.Induction
import Mathlib.Data.Nat.Bitwise

set_option autoImplicit false

namespace Clausal

namespace Valuation

theorem get?_set (valuation : Valuation) (atom other : String) (value : Bool) :
    (valuation.set atom value).get? other =
      if atom = other then some value else valuation.get? other := by
  simp [get?, set, Std.TreeMap.getElem?_insert]

theorem valueOf_eq (valuation : Valuation) (atom : String) :
    valuation.valueOf atom = (valuation.get? atom).getD false :=
  Std.TreeMap.getD_eq_getD_getElem?

theorem row_concat (atoms : List String) (last : String) (number : Nat) :
    row (atoms ++ [last]) number = (row atoms number).set last (number.testBit atoms.length) := by
  rw [row, List.zipIdx_append, List.foldl_append]
  simp [row]

theorem get?_row_of_not_mem (atoms : List String) (number : Nat) (atom : String)
    (absent : atom ∉ atoms) : (row atoms number).get? atom = none := by
  induction atoms using List.reverseRecOn with
  | nil => exact Std.TreeMap.getElem?_emptyc
  | append_singleton atoms last ih =>
      rw [List.mem_append, List.mem_singleton, not_or] at absent
      rw [row_concat, get?_set, if_neg (Ne.symm absent.2), ih absent.1]

theorem get?_row (atoms : List String) (distinct : atoms.Nodup) (number index : Nat)
    (inside : index < atoms.length) :
    (row atoms number).get? atoms[index] = some (number.testBit index) := by
  -- The last atom has the next bit and takes no value from another.
  induction atoms using List.reverseRecOn with
  | nil => cases inside
  | append_singleton atoms last ih =>
      obtain ⟨before, _, apart⟩ := List.nodup_append.mp distinct
      rw [row_concat, get?_set]
      by_cases early : index < atoms.length
      · rw [List.getElem_append_left early,
          if_neg (Ne.symm (apart _ (List.getElem_mem early) _ (List.mem_singleton_self last)))]
        exact ih before early
      · rw [List.length_append, List.length_singleton] at inside
        have final : index = atoms.length := by omega
        simp [final]

/-- The numbers of rows are words, whose bits are tested by masking the word. -/
theorem testBit_eq_masked (number index : Nat) (word : number < 2 ^ 64) (place : index < 64) :
    number.testBit index = ((UInt64.ofNat number &&& 1 <<< UInt64.ofNat index) != 0) := by
  have mask : ((1 : UInt64) <<< UInt64.ofNat index).toNat = 2 ^ index := by
    have narrow : index < 2 ^ 64 := Nat.lt_trans place (by decide)
    have power : 2 ^ index < 2 ^ 64 := Nat.pow_lt_pow_right (by decide) place
    rw [UInt64.toNat_shiftLeft, UInt64.toNat_ofNat', Nat.mod_eq_of_lt narrow,
      Nat.mod_eq_of_lt place, UInt64.toNat_one, Nat.one_shiftLeft, Nat.mod_eq_of_lt power]
  have masked : (UInt64.ofNat number &&& 1 <<< UInt64.ofNat index).toNat =
      (number.testBit index).toNat * 2 ^ index := by
    rw [UInt64.toNat_and, mask, UInt64.toNat_ofNat', Nat.mod_eq_of_lt word, Nat.and_two_pow]
  rw [Bool.eq_iff_iff, bne_iff_ne, ne_eq, ← UInt64.toNat_inj, masked]
  cases number.testBit index <;> simp

/-- The rows over the listed atoms, in order of their numbers. -/
def table (atoms : List String) : List Valuation :=
  (List.range (2 ^ atoms.length)).map (row atoms)

theorem rows_eq_ok (atoms : List String) (few : atoms.length < 64) :
    rows atoms = .ok (table atoms) := by
  rw [rows, rowCount, if_pos few]
  rfl

theorem length_table (atoms : List String) : (table atoms).length = 2 ^ atoms.length := by
  rw [table, List.length_map, List.length_range]

theorem getElem?_table_iff (atoms : List String) (number : Nat) (valuation : Valuation) :
    (table atoms)[number]? = some valuation ↔
      number < 2 ^ atoms.length ∧ row atoms number = valuation := by
  simp [table, List.getElem?_eq_some_iff]

theorem mem_table_iff (atoms : List String) (valuation : Valuation) :
    valuation ∈ table atoms ↔ ∃ number < 2 ^ atoms.length, row atoms number = valuation := by
  simp [table]

/-- The valuations give the same values to the listed atoms, set or not. -/
def AgreeOn (atoms : List String) (valuation other : Valuation) : Prop :=
  ∀ atom ∈ atoms, valuation.valueOf atom = other.valueOf atom

section

variable (atoms : List String) (distinct : atoms.Nodup)

include distinct

theorem agreeOn_row_iff (number : Nat) (valuation : Valuation) :
    AgreeOn atoms (row atoms number) valuation ↔
      ∀ index (inside : index < atoms.length),
        number.testBit index = valuation.valueOf atoms[index] := by
  unfold AgreeOn
  rw [List.forall_mem_iff_forall_getElem]
  refine forall₂_congr fun index inside => ?_
  rw [valueOf_eq, get?_row atoms distinct number index inside, Option.getD_some]

theorem eq_of_agreeOn_row (valuation : Valuation) (number other : Nat)
    (short : number < 2 ^ atoms.length) (short' : other < 2 ^ atoms.length)
    (agree : AgreeOn atoms (row atoms number) valuation)
    (agree' : AgreeOn atoms (row atoms other) valuation) : number = other := by
  -- A row with such bits is the only one: shorter numbers which have the same are equal.
  rw [agreeOn_row_iff atoms distinct] at agree agree'
  refine Nat.eq_of_testBit_eq fun index => ?_
  by_cases inside : index < atoms.length
  · rw [agree index inside, agree' index inside]
  · have beyond : 2 ^ atoms.length ≤ 2 ^ index :=
      Nat.pow_le_pow_right (by decide) (Nat.le_of_not_lt inside)
    rw [Nat.testBit_lt_two_pow (Nat.lt_of_lt_of_le short beyond),
      Nat.testBit_lt_two_pow (Nat.lt_of_lt_of_le short' beyond)]

theorem exists_agreeOn_row (valuation : Valuation) :
    ∃ number < 2 ^ atoms.length, AgreeOn atoms (row atoms number) valuation := by
  let values (place : Fin atoms.length) : Bool := valuation.valueOf atoms[place]
  refine ⟨Nat.ofBits values, Nat.ofBits_lt_two_pow values, ?_⟩
  rw [agreeOn_row_iff atoms distinct]
  exact fun index inside => Nat.testBit_ofBits_lt values index inside

theorem pairwise_table :
    (table atoms).Pairwise fun row other =>
      ∃ atom ∈ atoms, row.valueOf atom ≠ other.valueOf atom := by
  refine List.pairwise_map.mpr (List.pairwise_lt_range.imp_of_mem ?_)
  intro number other member member' less
  by_contra same
  simp only [not_exists, not_and, ne_eq, not_not] at same
  exact less.ne (eq_of_agreeOn_row atoms distinct _ number other (List.mem_range.mp member)
    (List.mem_range.mp member') same fun _ _ => rfl)

end

end Valuation

namespace Formula

theorem nodup_atoms (formula : Formula) : formula.atoms.Nodup :=
  Ordered.nodup_distinct _

theorem agreeOn_part {formula part : Formula} {valuation other : Valuation}
    (agree : Valuation.AgreeOn formula.atoms valuation other) (member : part ∈ formula.parts) :
    Valuation.AgreeOn part.atoms valuation other :=
  fun atom named => agree atom ((mem_atoms_iff atom formula).mpr (Or.inr ⟨part, member, named⟩))

/-- The value of a formula hangs on the values of its own atoms. -/
theorem evaluate_congr (formula : Formula) (valuation other : Valuation)
    (agree : Valuation.AgreeOn formula.atoms valuation other) :
    formula.evaluate valuation = formula.evaluate other := by
  induction formula with
  | atom name => exact agree name ((mem_atoms_atom name name).mpr rfl)
  | not body ih => rw [evaluate, evaluate, ih (agreeOn_part agree (List.mem_singleton_self body))]
  | and conjuncts ih =>
      rw [evaluate_and, evaluate_and, Bool.eq_iff_iff, List.all_eq_true, List.all_eq_true]
      refine forall₂_congr fun part member => ?_
      rw [ih part member (agreeOn_part agree member)]
  | or disjuncts ih =>
      rw [evaluate_or, evaluate_or, Bool.eq_iff_iff, List.any_eq_true, List.any_eq_true]
      refine exists_congr fun part => and_congr_right fun member => ?_
      rw [ih part member (agreeOn_part agree member)]
  | condition antecedent consequent first second =>
      rw [evaluate, evaluate, first (agreeOn_part agree (by simp [parts])),
        second (agreeOn_part agree (by simp [parts]))]
  | bicondition left right first second =>
      rw [evaluate, evaluate, first (agreeOn_part agree (by simp [parts])),
        second (agreeOn_part agree (by simp [parts]))]

/-- A table of the values of the atoms, row by row, and what it says of the formula. -/
structure Tabulated (formula : Formula) (table : List Valuation) : Prop where
  length : table.length = 2 ^ formula.atoms.length
  /-- The bits of its number are the values of a row. -/
  bits : ∀ (number : Nat) (row : Valuation), table[number]? = some row →
    ∀ index atom, formula.atoms[index]? = some atom → row.get? atom = some (number.testBit index)
  /-- The numbers are words, and the bits those which a mask of one bit leaves of them. -/
  words : ∀ number < table.length, number < 2 ^ 64 ∧ ∀ index < formula.atoms.length,
    number.testBit index = ((UInt64.ofNat number &&& 1 <<< UInt64.ofNat index) != 0)
  outside : ∀ row ∈ table, ∀ atom ∉ formula.atoms, row.get? atom = none
  apart : table.Pairwise fun row other =>
    ∃ atom ∈ formula.atoms, row.valueOf atom ≠ other.valueOf atom
  /-- Every valuation has its row and only one, and there the formula has the same value. -/
  covers : ∀ valuation, ∃ (number : Nat) (row : Valuation),
    table[number]? = some row ∧ Valuation.AgreeOn formula.atoms row valuation ∧
      formula.evaluate row = formula.evaluate valuation ∧
      ∀ (other : Nat) (row' : Valuation), table[other]? = some row' →
        Valuation.AgreeOn formula.atoms row' valuation → other = number
  some_iff : (∃ valuation, formula.evaluate valuation = true) ↔
    ∃ row ∈ table, formula.evaluate row = true
  every_iff : (∀ valuation, formula.evaluate valuation = true) ↔
    ∀ row ∈ table, formula.evaluate row = true

theorem exists_mem_table_evaluate_eq (formula : Formula) (valuation : Valuation) :
    ∃ row ∈ Valuation.table formula.atoms,
      formula.evaluate row = formula.evaluate valuation := by
  obtain ⟨number, short, agree⟩ :=
    Valuation.exists_agreeOn_row formula.atoms formula.nodup_atoms valuation
  exact ⟨_, (Valuation.mem_table_iff _ _).mpr ⟨number, short, rfl⟩,
    formula.evaluate_congr _ valuation agree⟩

/-- A formula of fewer than 64 atoms has a table, and it is adequate. -/
theorem rows_tabulated (formula : Formula) (few : formula.atoms.length < 64) :
    ∃ table, Valuation.rows formula.atoms = .ok table ∧ formula.Tabulated table := by
  have distinct := formula.nodup_atoms
  refine ⟨_, Valuation.rows_eq_ok formula.atoms few, ?_⟩
  constructor
  case length => exact Valuation.length_table formula.atoms
  case bits =>
    intro number row found index atom named
    obtain ⟨inside, rfl⟩ := List.getElem?_eq_some_iff.mp named
    rw [← ((Valuation.getElem?_table_iff _ number row).mp found).2]
    exact Valuation.get?_row formula.atoms distinct number index inside
  case words =>
    intro number inside
    rw [Valuation.length_table] at inside
    have word : number < 2 ^ 64 :=
      Nat.lt_trans inside (Nat.pow_lt_pow_right (by decide) few)
    exact ⟨word, fun index place =>
      Valuation.testBit_eq_masked number index word (Nat.lt_trans place few)⟩
  case outside =>
    intro row member atom absent
    obtain ⟨number, _, rfl⟩ := (Valuation.mem_table_iff _ row).mp member
    exact Valuation.get?_row_of_not_mem formula.atoms number atom absent
  case apart => exact Valuation.pairwise_table formula.atoms distinct
  case covers =>
    intro valuation
    obtain ⟨number, short, agree⟩ :=
      Valuation.exists_agreeOn_row formula.atoms distinct valuation
    refine ⟨number, _, (Valuation.getElem?_table_iff _ number _).mpr ⟨short, rfl⟩, agree,
      formula.evaluate_congr _ valuation agree, ?_⟩
    intro other row' found agree'
    obtain ⟨short', rfl⟩ := (Valuation.getElem?_table_iff _ other row').mp found
    exact Valuation.eq_of_agreeOn_row formula.atoms distinct valuation other number short' short
      agree' agree
  case some_iff =>
    constructor
    · intro ⟨valuation, holds⟩
      obtain ⟨row, member, same⟩ := formula.exists_mem_table_evaluate_eq valuation
      exact ⟨row, member, same.trans holds⟩
    · intro ⟨row, _, holds⟩
      exact ⟨row, holds⟩
  case every_iff =>
    constructor
    · exact fun holds row _ => holds row
    · intro holds valuation
      obtain ⟨row, member, same⟩ := formula.exists_mem_table_evaluate_eq valuation
      exact same.symm.trans (holds row member)

/-- The table of `q => p || !q` has four rows, as `q` is listed once. -/
theorem rows_tabulated_repeated :
    let formula := condition (atom "q") (or [atom "p", not (atom "q")])
    formula.atoms = ["p", "q"] ∧ formula.atoms.length < 64 ∧
      ∃ table, Valuation.rows formula.atoms = .ok table ∧ table.length = 4 ∧
        formula.Tabulated table := by
  intro formula
  have listed : formula.atoms = ["p", "q"] := by decide
  have few : formula.atoms.length < 64 := by
    rw [listed]
    decide
  obtain ⟨table, made, tabulated⟩ := rows_tabulated formula few
  have four : table.length = 2 ^ formula.atoms.length := tabulated.length
  rw [listed] at four
  exact ⟨listed, few, table, made, four, tabulated⟩

end Formula
end Clausal
