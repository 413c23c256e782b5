import Std.Data.TreeMap.Basic
import Std.Data.TreeMap.Lemmas

set_option autoImplicit false

namespace Clausal

/-- Truth values of finitely many atoms. Every other atom is false. -/
structure Valuation where
  values : Std.TreeMap String Bool := ∅
  deriving Inhabited

namespace Valuation

def get? (valuation : Valuation) (atom : String) : Option Bool :=
  valuation.values[atom]?

def valueOf (valuation : Valuation) (atom : String) : Bool :=
  valuation.values.getD atom false

def set (valuation : Valuation) (atom : String) (value : Bool) : Valuation :=
  ⟨valuation.values.insert atom value⟩

theorem valueOf_set (valuation : Valuation) (atom other : String) (value : Bool) :
    (valuation.set atom value).valueOf other =
      if atom = other then value else valuation.valueOf other := by
  simp [valueOf, set, Std.TreeMap.getD_insert]

/-- The atoms which have a value, in order, the false ones marked by a dash. -/
def text (valuation : Valuation) : String :=
  " ".intercalate (valuation.values.toList.map fun (atom, value) =>
    if value then atom else "-" ++ atom)

instance : ToString Valuation := ⟨text⟩

/-- The row of a table in which bit `index` of the number is the value of the
atom at that place. An atom listed twice has the value of its last place. -/
def row (atoms : List String) (number : Nat) : Valuation :=
  atoms.zipIdx.foldl (fun valuation (atom, index) => valuation.set atom (number.testBit index)) {}

/-- Rows are numbered by words of 64 bits, so a vocabulary has to be smaller. -/
structure TooManyAtoms where
  count : Nat

def TooManyAtoms.message (reason : TooManyAtoms) : String :=
  s!"valuations over {reason.count} atoms cannot be counted"

def rowCount (atoms : List String) : Except TooManyAtoms Nat :=
  if atoms.length < 64 then .ok (Nat.pow 2 atoms.length) else .error ⟨atoms.length⟩

/-- Every valuation over the given atoms. -/
def rows (atoms : List String) : Except TooManyAtoms (List Valuation) :=
  (rowCount atoms).map fun count => (List.range count).map (row atoms)

/-- No more than the first `limit` rows. A vocabulary which is too large is
refused even when no row is asked for. -/
def firstRows (limit : Nat) (atoms : List String) : Except TooManyAtoms (List Valuation) :=
  (rowCount atoms).map fun count => (List.range (min limit count)).map (row atoms)

theorem firstRows_eq (limit : Nat) (atoms : List String) :
    firstRows limit atoms = (rows atoms).map (List.take limit) := by
  rw [firstRows, rows]
  cases rowCount atoms <;> simp [Except.map, ← List.map_take, List.take_range]

end Valuation
end Clausal
