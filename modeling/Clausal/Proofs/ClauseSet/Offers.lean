import Clausal.Proofs.ClauseSet.Equality

set_option autoImplicit false

namespace Clausal

theorem eraseDupsBy_loop_concat {α : Type} (same : α → α → Bool) (values : List α) (last : α)
    (kept : List α) :
    List.eraseDupsBy.loop same (values ++ [last]) kept =
      if (List.eraseDupsBy.loop same values kept).any (same last)
      then List.eraseDupsBy.loop same values kept
      else List.eraseDupsBy.loop same values kept ++ [last] := by
  induction values generalizing kept with
  | nil =>
      simp only [List.nil_append, List.eraseDupsBy.loop, List.any_reverse]
      cases kept.any (same last) <;> simp
  | cons value rest ih =>
      simp only [List.cons_append, List.eraseDupsBy.loop]
      by_cases known : kept.any (same value) = true
      · simp only [known]
        exact ih kept
      · rw [Bool.not_eq_true] at known
        simp only [known]
        exact ih (value :: kept)

theorem eraseDupsBy_concat {α : Type} (same : α → α → Bool) (values : List α) (last : α) :
    (values ++ [last]).eraseDupsBy same =
      if (values.eraseDupsBy same).any (same last) then values.eraseDupsBy same
      else values.eraseDupsBy same ++ [last] :=
  eraseDupsBy_loop_concat same values last []

namespace ClauseSet

/-- The clauses which are no tautologies, each where it is met first. -/
def firstOffered (clauses : List Clause) : List Clause :=
  (clauses.filter fun clause => !clause.isTautology).eraseDupsBy Clause.sameAs

def insertAll (set : ClauseSet) (clauses : List Clause) : ClauseSet :=
  clauses.foldl (fun set clause => (set.insert clause).2) set

theorem insertAll_ofList (first later : List Clause) :
    (ofList first).insertAll later = ofList (first ++ later) :=
  List.foldl_append.symm

theorem firstOffered_concat (clauses : List Clause) (last : Clause) :
    firstOffered (clauses ++ [last]) =
      if last.isTautology || (firstOffered clauses).any last.sameAs then firstOffered clauses
      else firstOffered clauses ++ [last] := by
  unfold firstOffered
  rw [List.filter_append]
  cases tautology : last.isTautology with
  | true => simp [tautology]
  | false => simp [tautology, eraseDupsBy_concat]

theorem Valid.contains_iff_sameAs {set : ClauseSet} (valid : set.Valid) (clause : Clause)
    (distinct : clause.literals.Nodup) :
    set.contains clause = true ↔ ∃ stored ∈ set.toList, clause.sameAs stored = true := by
  simp only [valid.contains_iff, Clause.sameAs_iff_canonical_eq clause _ distinct, eq_comm]

theorem toList_ofList_eq (clauses : List Clause)
    (distinct : ∀ clause ∈ clauses, clause.literals.Nodup) :
    (ofList clauses).toList = firstOffered clauses := by
  induction clauses using List.reverseRecOn with
  | nil => rfl
  | append_singleton clauses last ih =>
      rw [List.forall_mem_append, List.forall_mem_singleton] at distinct
      have known := (valid_ofList clauses).contains_iff_sameAs last distinct.2
      have before := ih distinct.1
      rw [ofList_concat, firstOffered_concat, ← before]
      rcases insert_cases (ofList clauses) last with ⟨refused, same⟩ | ⟨proper, fresh, _, added, _⟩
      · rw [same, if_pos]
        rw [Bool.or_eq_true, List.any_eq_true]
        exact refused.imp_right known.mp
      · rw [added, if_neg]
        rw [proper, Bool.false_or, List.any_eq_true, ← known, fresh]
        exact Bool.false_ne_true

/-- A set told by the clauses it was offered. -/
structure Represents (set : ClauseSet) (offered : List Clause) : Prop where
  indexed : ∀ form, set.index.contains form = true ↔
    ∃ clause ∈ set.toList, clause.canonical = form
  proper : ∀ clause ∈ set.toList, clause.isTautology = false
  distinct : ∀ key other clause same, set.get? key = some clause →
    set.get? other = some same → clause.sameAs same = true → key = other
  stored : set.toList = firstOffered offered

section

variable (offered : List Clause) (distinct : ∀ clause ∈ offered, clause.literals.Nodup)

include distinct

theorem nodup_of_mem_ofList : ∀ clause ∈ (ofList offered).toList, clause.literals.Nodup :=
  fun clause member => distinct clause (mem_of_mem_ofList offered clause member)

theorem represents_ofList : (ofList offered).Represents offered where
  indexed := (valid_ofList offered).indexed
  proper := (valid_ofList offered).proper
  distinct key other clause same found :=
    (valid_ofList offered).key_eq_of_sameAs key other clause same
      (nodup_of_mem_ofList offered distinct clause ((mem_toList_iff _ _).mpr ⟨key, found⟩)) found
  stored := toList_ofList_eq offered distinct

theorem contains_ofList_iff (clause : Clause) (own : clause.literals.Nodup) :
    (ofList offered).contains clause = true ↔ ∃ stored ∈ (ofList offered).toList,
      ∀ literal, literal ∈ stored.literals ↔ literal ∈ clause.literals := by
  rw [(valid_ofList offered).contains_iff]
  refine exists_congr fun stored => and_congr_right fun member => ?_
  constructor
  · exact fun same literal => Clause.mem_iff_of_canonical_eq stored clause literal same
  · exact Clause.canonical_eq_of_mem_iff stored clause
      (nodup_of_mem_ofList offered distinct stored member) own

theorem sameAs_ofList_iff (others : List Clause)
    (distinct' : ∀ clause ∈ others, clause.literals.Nodup) :
    (ofList offered).sameAs (ofList others) = true ↔
      (∀ clause ∈ (ofList offered).toList, ∃ same ∈ (ofList others).toList,
        clause.sameAs same = true) ∧
      ∀ clause ∈ (ofList others).toList, ∃ same ∈ (ofList offered).toList,
        clause.sameAs same = true := by
  have first := valid_ofList offered
  have second := valid_ofList others
  rw [first.sameAs_iff_contains second]
  apply and_congr
  · exact forall₂_congr fun clause member =>
      second.contains_iff_sameAs clause (nodup_of_mem_ofList offered distinct clause member)
  · exact forall₂_congr fun clause member =>
      first.contains_iff_sameAs clause (nodup_of_mem_ofList others distinct' clause member)

end

/-- What is not to be added: a tautology, or a clause equal to one of the set. -/
def Refuses (set : ClauseSet) (clause : Clause) : Prop :=
  clause.isTautology = true ∨ ∃ stored ∈ set.toList, clause.sameAs stored = true

theorem insert_ofList (offered : List Clause) (clause : Clause)
    (distinct : clause.literals.Nodup) :
    ((ofList offered).Refuses clause → (ofList offered).insert clause = (none, ofList offered)) ∧
      (¬ (ofList offered).Refuses clause →
        ((ofList offered).insert clause).1 = some (ofList offered).size ∧
          ((ofList offered).insert clause).2.toList = (ofList offered).toList ++ [clause]) := by
  have known := (valid_ofList offered).contains_iff_sameAs clause distinct
  unfold Refuses
  rw [← known]
  rcases insert_cases (ofList offered) clause with ⟨refused, same⟩ | ⟨proper, fresh, key, added, _⟩
  · exact ⟨fun _ => same, fun free => absurd refused free⟩
  · refine ⟨fun refused => ?_, fun _ => ⟨key, added⟩⟩
    simp [proper, fresh] at refused

/-- A set of clauses made from lists of literals, however many of them were offered when it
was built and however many later, is the account of all these offers. What is offered
next, what is looked up and what is compared are decided by its clauses, in whichever
order their literals are. -/
theorem offers_represented (first later : List (List Literal)) :
    let set := (ofList (first.map Clause.ofList)).insertAll (later.map Clause.ofList)
    set.Represents ((first ++ later).map Clause.ofList) ∧
      (∀ literals, (set.Refuses (.ofList literals) → set.insert (.ofList literals) = (none, set)) ∧
        (¬ set.Refuses (.ofList literals) →
          (set.insert (.ofList literals)).1 = some set.size ∧
            (set.insert (.ofList literals)).2.toList = set.toList ++ [.ofList literals])) ∧
        (∀ literals, set.contains (.ofList literals) = true ↔
          ∃ stored ∈ set.toList, ∀ literal, literal ∈ stored.literals ↔ literal ∈ literals) ∧
          ∀ first' later' : List (List Literal),
            let other := (ofList (first'.map Clause.ofList)).insertAll (later'.map Clause.ofList)
            set.sameAs other = true ↔
              (∀ clause ∈ set.toList, ∃ same ∈ other.toList, clause.sameAs same = true) ∧
                ∀ clause ∈ other.toList, ∃ same ∈ set.toList, clause.sameAs same = true := by
  simp only [insertAll_ofList, ← List.map_append]
  have distinct := Clause.nodup_of_mem_map_ofList
  refine ⟨?represents, ?insert, ?contains, ?equal⟩
  case represents => exact represents_ofList _ (distinct _)
  case insert => exact fun literals => insert_ofList _ _ (Clause.nodup_ofList literals)
  case contains =>
    intro literals
    have known := contains_ofList_iff _ (distinct (first ++ later)) _ (Clause.nodup_ofList literals)
    simpa only [Clause.mem_ofList] using known
  case equal => exact fun first' later' => sameAs_ofList_iff _ (distinct _) _ (distinct _)

/-- A clause offered again with its literals in another order, or with one twice, is refused
as a tautology is, and is looked up as it was offered first. -/
theorem offers_represented_reordered :
    let a : Literal := ⟨"a", false⟩
    let b : Literal := ⟨"b", true⟩
    let set := (ofList (List.map .ofList [[b, a], [a, b], [a, a.negate]])).insertAll
      (List.map .ofList [[b], [b, b]])
    let other := (ofList (List.map .ofList [[b]])).insertAll (List.map .ofList [[a, b, a]])
    set.Represents (List.map .ofList [[b, a], [a, b], [a, a.negate], [b], [b, b]]) ∧
      set.toList = [.ofList [b, a], .ofList [b]] ∧
        set.insert (.ofList [a, b]) = (none, set) ∧
          (set.insert (.ofList [a])).2.toList = set.toList ++ [.ofList [a]] ∧
            set.contains (.ofList [a, b, b]) = true ∧ set.sameAs other = true := by
  intro a b set other
  have general := offers_represented [[b, a], [a, b], [a, a.negate]] [[b], [b, b]]
  have stored : set.toList = [.ofList [b, a], .ofList [b]] := general.1.stored
  have member : Clause.ofList [b, a] ∈ set.toList := by
    rw [stored]
    exact List.mem_cons_self
  have known : set.Refuses (.ofList [a, b]) := Or.inr ⟨_, member, by decide⟩
  have free : ¬ set.Refuses (.ofList [a]) := by
    unfold Refuses
    rw [stored]
    decide
  have equal : set.sameAs other = true := by
    have stored' : other.toList = [.ofList [b], .ofList [a, b, a]] :=
      (offers_represented [[b]] [[a, b, a]]).1.stored
    refine (general.2.2.2 [[b]] [[a, b, a]]).mpr ?_
    show (∀ clause ∈ set.toList, ∃ same ∈ other.toList, clause.sameAs same = true) ∧
      ∀ clause ∈ other.toList, ∃ same ∈ set.toList, clause.sameAs same = true
    rw [stored, stored']
    decide
  refine ⟨general.1, stored, (general.2.1 [a, b]).1 known, ((general.2.1 [a]).2 free).2, ?_, equal⟩
  refine (general.2.2.1 [a, b, b]).mpr ⟨_, member, fun literal => ?_⟩
  simp [Clause.mem_ofList, or_comm]

end ClauseSet
end Clausal
