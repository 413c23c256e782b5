import Clausal.Formula.MapNodes
import Clausal.Formula.Text
import Clausal.Proofs.Formula.Atoms
import Mathlib.Logic.Function.Iterate

set_option autoImplicit false

namespace Clausal.Formula

/-- The characters of a text which are part of no name. -/
def marks : List Char := [' ', '!', '(', ')', '&', '|', '=', '<', '>']

/-- Names which stand out from a text, and are not the text of the empty conjunction. -/
structure Word (name : String) : Prop where
  inhabited : name ≠ ""
  other : name ≠ "true"
  plain : ∀ character ∈ name.toList, character ∉ marks

theorem word_of_isAlphanum (name : String) (inhabited : name ≠ "") (other : name ≠ "true")
    (letters : ∀ character ∈ name.toList, character.isAlphanum = true ∨ character = '_') :
    Word name where
  inhabited
  other
  plain character member marked := by
    have apart : ∀ mark ∈ marks, ¬ (mark.isAlphanum = true ∨ mark = '_') := by
      simp [marks]
    exact apart character marked (letters character member)

inductive Operator where
  | and
  | or
  | condition
  | bicondition

def Operator.text : Operator → String
  | .and => " && "
  | .or => " || "
  | .condition => " => "
  | .bicondition => " <=> "

/-- Parts and the operator between them. A single part has none, no part at all is false. -/
def connect : Option Operator → List Formula → Formula
  | _, [only] => only
  | some .and, parts => .and parts
  | some .condition, [antecedent, consequent] => .condition antecedent consequent
  | some .bicondition, [left, right] => .bicondition left right
  | _, parts => .or parts

/-- What is read of a text within a pair of parentheses: the parts which are complete, and of
the next one its negations and the name it begins with. -/
structure Phrase where
  negations : Nat := 0
  word : List Char := []
  parts : List Formula := []
  operator : Option Operator := none

namespace Phrase

def add (phrase : Phrase) (part : Formula) : Phrase :=
  { phrase with negations := 0, parts := phrase.parts ++ [not^[phrase.negations] part] }

def wordFormula (word : List Char) : Formula :=
  if word = "true".toList then .and [] else .atom (String.ofList word)

/-- A name is complete when what follows is no part of it. -/
def endWord (phrase : Phrase) : Phrase :=
  if phrase.word = [] then phrase
  else { phrase with word := [] }.add (wordFormula phrase.word)

def close (phrase : Phrase) : Formula :=
  connect phrase.endWord.operator phrase.endWord.parts

/-- The equals sign is also in the arrow of a bicondition, which has begun by then. -/
def take (phrase : Phrase) : Char → Phrase
  | ' ' => phrase.endWord
  | '!' => { phrase with negations := phrase.negations + 1 }
  | '&' => { phrase with operator := some .and }
  | '|' => { phrase with operator := some .or }
  | '<' => { phrase with operator := some .bicondition }
  | '=' => { phrase with operator := phrase.operator.or (some .condition) }
  | '>' => phrase
  | character => { phrase with word := phrase.word ++ [character] }

end Phrase

/-- Phrases which are under way, the innermost first. -/
def readChar : List Phrase → Char → List Phrase
  | phrase :: outer, '(' => {} :: phrase :: outer
  | phrase :: next :: outer, ')' => next.add phrase.close :: outer
  | phrase :: outer, character => phrase.take character :: outer
  | [], _ => []

/-- The formula of a text, with no junction of one part. Nothing is promised of a text which is
that of no formula. -/
def read (text : String) : Formula :=
  ((text.toList.foldl readChar [{}]).headD {}).close

def unwrap : Formula → Formula
  | .and [only] => only
  | .or [only] => only
  | node => node

def bare (formula : Formula) : Formula :=
  formula.mapNodes unwrap

theorem evaluate_bare (valuation : Valuation) (formula : Formula) :
    formula.bare.evaluate valuation = formula.evaluate valuation := by
  refine evaluate_mapNodes unwrap valuation (fun node => ?_) formula
  unfold unwrap
  split <;> simp

namespace Phrase

theorem endWord_of_nil {phrase : Phrase} (blank : phrase.word = []) :
    phrase.endWord = phrase :=
  if_pos blank

theorem word_endWord (phrase : Phrase) : phrase.endWord.word = [] := by
  unfold endWord
  split
  · assumption
  · rfl

theorem add_negated (phrase : Phrase) (body : Formula) :
    { phrase with negations := phrase.negations + 1 }.add body = phrase.add (.not body) := by
  rw [add, add, Function.iterate_succ_apply]

theorem take_of_plain (phrase : Phrase) (character : Char) (plain : character ∉ marks) :
    phrase.take character = { phrase with word := phrase.word ++ [character] } := by
  unfold take
  split <;> simp_all [marks]

end Phrase

/-- The text is read as one more part. Its last name may still be open at the end. -/
def Reads (text : List Char) (formula : Formula) : Prop :=
  ∀ (phrase : Phrase) (outer : List Phrase), phrase.word = [] →
    ∃ after, text.foldl readChar (phrase :: outer) = after :: outer ∧
      after.endWord = phrase.add formula

/-- The text is read as all there is within its parentheses. -/
def Yields (text : List Char) (formula : Formula) : Prop :=
  ∀ outer : List Phrase, ∃ after, text.foldl readChar ({} :: outer) = after :: outer ∧
    after.close = formula

theorem readChar_of_plain (phrase : Phrase) (outer : List Phrase) (character : Char)
    (plain : character ∉ marks) :
    readChar (phrase :: outer) character =
      { phrase with word := phrase.word ++ [character] } :: outer := by
  rw [← phrase.take_of_plain character plain]
  unfold readChar
  split <;> simp_all [marks]

theorem foldl_readChar_of_plain (characters : List Char)
    (plain : ∀ character ∈ characters, character ∉ marks) (phrase : Phrase)
    (outer : List Phrase) :
    characters.foldl readChar (phrase :: outer) =
      { phrase with word := phrase.word ++ characters } :: outer := by
  induction characters generalizing phrase with
  | nil => simp
  | cons character rest ih =>
      obtain ⟨here, later⟩ := List.forall_mem_cons.mp plain
      rw [List.foldl_cons, readChar_of_plain phrase outer character here, ih later]
      simp

theorem reads_word (name : String) (word : Word name) : Reads name.toList (.atom name) := by
  intro phrase outer blank
  refine ⟨_, foldl_readChar_of_plain name.toList word.plain phrase outer, ?_⟩
  have inhabited : name.toList ≠ [] := fun none => word.inhabited (String.toList_inj.mp none)
  have other : name.toList ≠ "true".toList := fun same => word.other (String.toList_inj.mp same)
  have named : Phrase.wordFormula name.toList = .atom name := by
    rw [Phrase.wordFormula, if_neg other, String.ofList_toList]
  obtain ⟨negations, _, parts, operator⟩ := phrase
  subst blank
  rw [List.nil_append, Phrase.endWord, if_neg inhabited, named]

theorem Reads.not {text : List Char} {formula : Formula} (reads : Reads text formula) :
    Reads ('!' :: text) (.not formula) := by
  intro phrase outer blank
  obtain ⟨after, read, ended⟩ :=
    reads { phrase with negations := phrase.negations + 1 } outer blank
  exact ⟨after, read, ended.trans (phrase.add_negated formula)⟩

theorem Reads.yields {text : List Char} {formula : Formula} (reads : Reads text formula) :
    Yields text formula := by
  intro outer
  obtain ⟨after, read, ended⟩ := reads {} outer rfl
  refine ⟨after, read, ?_⟩
  rw [Phrase.close, ended]
  rfl

/-- What stands in parentheses is read on its own and then added as one part. -/
theorem Yields.enclosed {text : String} {formula : Formula} (yields : Yields text.toList formula) :
    Reads (enclosed true text).toList formula := by
  intro phrase outer blank
  obtain ⟨after, read, closed⟩ := yields (phrase :: outer)
  refine ⟨phrase.add formula, ?_, Phrase.endWord_of_nil blank⟩
  have characters : (Formula.enclosed true text).toList = '(' :: text.toList ++ [')'] := by
    simp [Formula.enclosed]
  rw [characters, List.cons_append, List.foldl_cons, List.foldl_append]
  change List.foldl readChar (text.toList.foldl readChar ({} :: phrase :: outer)) [')'] = _
  rw [read, ← closed]
  rfl

theorem foldl_readChar_operator (operator : Operator) (phrase : Phrase) (outer : List Phrase)
    (fits : phrase.endWord.operator = none ∨ phrase.endWord.operator = some operator) :
    operator.text.toList.foldl readChar (phrase :: outer) =
      { phrase.endWord with operator := some operator } :: outer := by
  have ended := phrase.word_endWord
  have blank : operator.text.toList = ' ' :: operator.text.toList.tail := by
    cases operator <;> rfl
  rw [blank, List.foldl_cons]
  change operator.text.toList.tail.foldl readChar (phrase.endWord :: outer) = _
  generalize phrase.endWord = ready at fits ended
  obtain ⟨negations, _, parts, earlier⟩ := ready
  subst ended
  cases operator with
  | and => rfl
  | or => rfl
  | bicondition => rfl
  | condition => rcases fits with rfl | rfl <;> rfl

theorem Reads.exists_of_affirmed {text : List Char} {formula : Formula}
    (reads : Reads text formula) (phrase : Phrase) (outer : List Phrase)
    (affirmed : phrase.negations = 0) (blank : phrase.word = []) :
    ∃ after, text.foldl readChar (phrase :: outer) = after :: outer ∧
      after.endWord = { phrase with parts := phrase.parts ++ [formula] } := by
  obtain ⟨after, read, ended⟩ := reads phrase outer blank
  refine ⟨after, read, ended.trans ?_⟩
  rw [Phrase.add, affirmed]
  rfl

theorem foldl_readChar_chain (operator : Operator) (part : Formula) (rest : List Formula)
    (each : ∀ member ∈ part :: rest, Reads (member.textAs true).toList member.bare)
    (phrase : Phrase) (outer : List Phrase) (affirmed : phrase.negations = 0)
    (blank : phrase.word = [])
    (fits : phrase.operator = none ∨ phrase.operator = some operator) :
    ∃ after, (operator.text.intercalate ((part :: rest).map (textAs true))).toList.foldl readChar
        (phrase :: outer) = after :: outer ∧
      after.endWord =
        { phrase with
          parts := phrase.parts ++ (part :: rest).map bare
          operator := if rest = [] then phrase.operator else some operator } := by
  -- Other parts may have been read in the phrase before those to come.
  induction rest generalizing part phrase with
  | nil =>
      exact (each part List.mem_cons_self).exists_of_affirmed phrase outer affirmed blank
  | cons next rest ih =>
      obtain ⟨reads, later⟩ := List.forall_mem_cons.mp each
      obtain ⟨first, read, ended⟩ := reads.exists_of_affirmed phrase outer affirmed blank
      have joined := foldl_readChar_operator operator first outer (ended ▸ fits)
      rw [ended] at joined
      obtain ⟨after, remaining, complete⟩ := ih next later
        { phrase with parts := phrase.parts ++ [part.bare], operator := some operator }
        affirmed blank (Or.inr rfl)
      refine ⟨after, ?_, ?_⟩
      · rw [List.map_cons, List.map_cons, String.intercalate_cons_cons, String.toList_append,
          String.toList_append, List.foldl_append, List.foldl_append, read, joined]
        exact remaining
      · rw [complete]
        simp

theorem yields_chain (operator : Operator) (first second : Formula) (rest : List Formula)
    (each : ∀ member ∈ first :: second :: rest,
      Reads (member.textAs true).toList member.bare) :
    Yields (operator.text.intercalate ((first :: second :: rest).map (textAs true))).toList
      (connect (some operator) ((first :: second :: rest).map bare)) := by
  intro outer
  obtain ⟨after, read, ended⟩ := foldl_readChar_chain operator first (second :: rest) each {} outer
    rfl rfl (Or.inl rfl)
  refine ⟨after, read, ?_⟩
  rw [Phrase.close, ended]
  simp

theorem yields_true : Yields "true".toList (.and []) :=
  fun _ => ⟨{ word := "true".toList }, rfl, rfl⟩

theorem yields_blank : Yields "".toList (.or []) :=
  fun _ => ⟨{}, rfl, rfl⟩

/-- A text which depends on its place, and the formula which it is read as in either. -/
structure ReadAs (textAs : Bool → String) (formula : Formula) : Prop where
  part : Reads (textAs true).toList formula
  whole : Yields (textAs false).toList formula

theorem Reads.readAs {text : String} {formula : Formula} (reads : Reads text.toList formula) :
    ReadAs (fun _ => text) formula :=
  ⟨reads, reads.yields⟩

theorem Yields.readAs {text : String} {formula : Formula} (yields : Yields text.toList formula) :
    ReadAs (fun isPart => Formula.enclosed isPart text) formula :=
  ⟨yields.enclosed, yields⟩

/-- Junctions of any number of parts, if only none and several are told by the operator. -/
theorem readAs_junction (operator : Operator) (empty : String) (junction : List Formula → Formula)
    (blank : Yields empty.toList (unwrap (junction [])))
    (joins : ∀ first rest,
      connect (some operator) (first :: rest) = unwrap (junction (first :: rest)))
    (parts : List Formula)
    (each : ∀ part ∈ parts, Reads (part.textAs true).toList part.bare) :
    ReadAs (fun isPart => junctionText isPart operator.text empty (parts.map (textAs true)))
      (unwrap (junction (parts.map bare))) := by
  match parts with
  | [] => exact blank.readAs
  | [only] =>
      have whole : unwrap (junction [only.bare]) = only.bare := (joins only.bare []).symm
      rw [List.map_singleton, List.map_singleton, whole]
      exact (each only List.mem_cons_self).readAs
  | first :: second :: rest =>
      have whole : connect (some operator) ((first :: second :: rest).map bare) =
          unwrap (junction ((first :: second :: rest).map bare)) :=
        joins first.bare ((second :: rest).map bare)
      rw [← whole]
      exact (yields_chain operator first second rest each).readAs

theorem readAs_bare (formula : Formula) (words : ∀ name ∈ formula.atoms, Word name) :
    ReadAs (fun isPart => formula.textAs isPart) formula.bare := by
  induction formula using inductParts with
  | node formula ih =>
      have each : ∀ part ∈ formula.parts, Reads (part.textAs true).toList part.bare := by
        intro part member
        exact (ih part member fun name named =>
          words name ((mem_atoms_iff name formula).mpr (Or.inr ⟨part, member, named⟩))).part
      cases formula with
      | atom name =>
          exact (reads_word name (words name ((mem_atoms_atom name name).mpr rfl))).readAs
      | not body =>
          have whole := (each body (List.mem_singleton_self body)).not
          have text : ("!" ++ body.textAs true).toList = '!' :: (body.textAs true).toList := by
            simp
          rw [← text] at whole
          exact whole.readAs
      | and conjuncts =>
          have whole := readAs_junction .and "true" .and yields_true
            (fun first rest => by cases rest <;> rfl) conjuncts each
          rw [← partTexts_eq] at whole
          rw [bare, mapNodes_and]
          exact whole
      | or disjuncts =>
          have whole := readAs_junction .or "" .or yields_blank
            (fun first rest => by cases rest <;> rfl) disjuncts each
          rw [← partTexts_eq] at whole
          rw [bare, mapNodes_or]
          exact whole
      | condition antecedent consequent =>
          exact (yields_chain .condition antecedent consequent [] each).readAs
      | bicondition left right =>
          exact (yields_chain .bicondition left right [] each).readAs

theorem read_text (formula : Formula) (words : ∀ name ∈ formula.atoms, Word name) :
    read formula.text = formula.bare := by
  obtain ⟨after, read, closed⟩ := (readAs_bare formula words).whole []
  rw [Formula.read, text, read]
  exact closed

example : read "(p && q) => !(p || q)" =
    condition (and [atom "p", atom "q"]) (not (or [atom "p", atom "q"])) := by rfl

/-- A text leaves the value of a formula in no doubt. -/
theorem evaluate_eq_of_text_eq (formula other : Formula)
    (words : ∀ name ∈ formula.atoms, Word name) (words' : ∀ name ∈ other.atoms, Word name)
    (same : formula.text = other.text) (valuation : Valuation) :
    formula.evaluate valuation = other.evaluate valuation := by
  calc
    formula.evaluate valuation = formula.bare.evaluate valuation := (evaluate_bare _ _).symm
    _ = (read formula.text).evaluate valuation := by rw [read_text formula words]
    _ = other.bare.evaluate valuation := by rw [same, read_text other words']
    _ = other.evaluate valuation := evaluate_bare _ _

/-- `p_1 && (Q2 || !p_1)` is the text of two formulas, of which one wraps a junction of one
part around the disjunction. -/
theorem evaluate_eq_of_text_eq_wrapped :
    let disjunction := or [atom "Q2", not (atom "p_1")]
    let plain := and [atom "p_1", disjunction]
    let wrapped := and [atom "p_1", and [disjunction]]
    plain.text = "p_1 && (Q2 || !p_1)" ∧ plain.text = wrapped.text ∧ plain ≠ wrapped ∧
      (∀ name ∈ plain.atoms, Word name) ∧ (∀ name ∈ wrapped.atoms, Word name) ∧
      ∀ valuation, plain.evaluate valuation = wrapped.evaluate valuation := by
  intro disjunction plain wrapped
  have letters : ∀ name ∈ ["Q2", "p_1"], name ≠ "" ∧ name ≠ "true" ∧
      ∀ character ∈ name.toList, character.isAlphanum = true ∨ character = '_' := by
    simp
  have listed : ∀ name ∈ ["Q2", "p_1"], Word name := by
    intro name member
    obtain ⟨inhabited, other, plain⟩ := letters name member
    exact word_of_isAlphanum name inhabited other plain
  have words : ∀ name ∈ plain.atoms, Word name := by
    have names : plain.atoms = ["Q2", "p_1"] := by decide
    rw [names]
    exact listed
  have words' : ∀ name ∈ wrapped.atoms, Word name := by
    have names : wrapped.atoms = ["Q2", "p_1"] := by decide
    rw [names]
    exact listed
  have same : plain.text = wrapped.text := by decide
  exact ⟨by decide, same, by decide, words, words',
    evaluate_eq_of_text_eq plain wrapped words words' same⟩

end Clausal.Formula
