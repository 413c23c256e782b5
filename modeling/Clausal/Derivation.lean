import Clausal.Ordered

set_option autoImplicit false

/- The record of how each clause was obtained. Clauses are known to it by key
only. A key may be noted again and keys may be left out; the record then keeps
every entry, the latest being the one meant by its key. -/
namespace Clausal

/-- What a clause was obtained from: the input, or the clause of an earlier entry. -/
inductive Source where
  | input
  | entry (place : Nat)
  deriving DecidableEq

def Source.place? : Source → Option Nat
  | .input => none
  | .entry place => some place

/-- A clause, the round in which it was noted, and its sources, the latest first. -/
structure Entry where
  key : Nat
  round : Nat
  sources : List Source
  deriving DecidableEq

def Entry.isInput (entry : Entry) : Bool :=
  entry.sources.contains .input

/-- The places of the entries a clause was resolved from. -/
def Entry.places (entry : Entry) : List Nat :=
  entry.sources.filterMap Source.place?

/-- All entries, the latest first. The place of an entry is the count of those
before it. -/
structure Derivation where
  entries : List Entry := []
  deriving DecidableEq, Inhabited

namespace Derivation

def entryAt? (record : Derivation) (place : Nat) : Option Entry :=
  record.entries.reverse[place]?

theorem entryAt?_cons (entry : Entry) (earlier : List Entry) (place : Nat) :
    entryAt? ⟨entry :: earlier⟩ place =
      if place = earlier.length then some entry else entryAt? ⟨earlier⟩ place := by
  simp only [entryAt?, List.reverse_cons]
  by_cases last : place = earlier.length
  · simp [last]
  · rw [if_neg last]
    by_cases before : place < earlier.length
    · exact List.getElem?_append_left (by simpa using before)
    · rw [List.getElem?_eq_none (by simp; omega), List.getElem?_eq_none (by simp; omega)]

/-- The place of the latest entry of a key. -/
def latest? (key : Nat) : List Entry → Option Nat
  | [] => none
  | entry :: earlier => if entry.key = key then some earlier.length else latest? key earlier

theorem latest?_lt (key place : Nat) (entries : List Entry)
    (found : latest? key entries = some place) : place < entries.length := by
  induction entries with
  | nil => simp [latest?] at found
  | cons entry earlier ih =>
      rw [latest?] at found
      by_cases same : entry.key = key
      · simp_all
      · have inside := ih (by simpa [same] using found)
        simp only [List.length_cons]
        omega

theorem entryAt?_of_latest? (record : Derivation) (key place : Nat)
    (found : latest? key record.entries = some place) :
    ∃ entry, record.entryAt? place = some entry ∧ entry.key = key := by
  obtain ⟨entries⟩ := record
  induction entries with
  | nil => simp [latest?] at found
  | cons entry earlier ih =>
      simp only [latest?] at found
      by_cases same : entry.key = key
      · refine ⟨entry, ?_, same⟩
        rw [if_pos same, Option.some.injEq] at found
        rw [entryAt?_cons, if_pos found.symm]
      · rw [if_neg same] at found
        have before := latest?_lt key place earlier found
        rw [entryAt?_cons, if_neg (by omega)]
        exact ih found

/-- What a key stands for as a source. A key below one which was noted, but left
out itself, stands for the input. -/
def source? (record : Derivation) (key : Nat) : Option Source :=
  match latest? key record.entries with
  | some place => some (.entry place)
  | none => if record.entries.any (key < ·.key) then some .input else none

def addInput (record : Derivation) (key : Nat) : Derivation :=
  ⟨⟨key, 0, [.input]⟩ :: record.entries⟩

/-- Notes a resolvent. Its own key is already taken when its parents are looked up;
a parent which stands for nothing is left out. -/
def addResolvent (record : Derivation) (key : Nat) (parents : Nat × Nat) (round : Nat) :
    Derivation :=
  let named : Derivation := ⟨⟨key, round, []⟩ :: record.entries⟩
  ⟨⟨key, round, [parents.2, parents.1].filterMap named.source?⟩ :: record.entries⟩

def entryOf? (record : Derivation) (key : Nat) : Option Entry :=
  (latest? key record.entries).bind record.entryAt?

def isInput (record : Derivation) (key : Nat) : Bool :=
  (record.entryOf? key).any Entry.isInput

/-- The keys of the two clauses a resolvent was obtained from, the latest first. -/
def parents? (record : Derivation) (key : Nat) : Option (Nat × Nat) :=
  match (record.entryOf? key).map fun entry =>
      entry.places.filterMap fun place => (record.entryAt? place).map Entry.key with
  | some [first, second] => some (first, second)
  | _ => none

/-- The keys of the input clauses among the wanted places and the places these
depend on. Sources are never later than the entry they are sources of, so one
walk from the latest entry to the first meets every place after it is wanted. -/
def inputKeys : List Entry → List Nat → List Nat
  | [], _ => []
  | entry :: earlier, wanted =>
      if wanted.contains earlier.length then
        (if entry.isInput then [entry.key] else []) ++ inputKeys earlier (entry.places ++ wanted)
      else inputKeys earlier wanted

/-- The keys of the input clauses which some clauses depend on, in order. -/
def origins (record : Derivation) (keys : List Nat) : List Nat :=
  Ordered.distinct (inputKeys record.entries (keys.filterMap (latest? · record.entries)))

end Derivation
end Clausal
