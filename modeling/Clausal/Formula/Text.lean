import Clausal.Formula.Basic

set_option autoImplicit false

/- The text of a formula. Atoms and negations stand bare, every other node is
enclosed where it is a part, and a junction with one part is written as that
part is. The empty conjunction is written out; the empty disjunction is blank. -/
namespace Clausal.Formula

/-- A text in the position of a part is told from its neighbours by parentheses. -/
def enclosed (isPart : Bool) (text : String) : String :=
  if isPart then "(" ++ text ++ ")" else text

def junctionText (isPart : Bool) (operator empty : String) : List String → String
  | [] => enclosed isPart empty
  | [only] => only
  | texts => enclosed isPart (operator.intercalate texts)

mutual

def textAs (isPart : Bool) : Formula → String
  | .atom name => name
  | .not body => "!" ++ textAs true body
  | .and conjuncts => junctionText isPart " && " "true" (partTexts conjuncts)
  | .or disjuncts => junctionText isPart " || " "" (partTexts disjuncts)
  | .condition antecedent consequent =>
      enclosed isPart (textAs true antecedent ++ " => " ++ textAs true consequent)
  | .bicondition left right =>
      enclosed isPart (textAs true left ++ " <=> " ++ textAs true right)

def partTexts : List Formula → List String
  | [] => []
  | part :: rest => textAs true part :: partTexts rest

end

theorem partTexts_eq (parts : List Formula) : partTexts parts = parts.map (textAs true) := by
  induction parts with
  | nil => rfl
  | cons part rest ih => rw [partTexts, List.map_cons, ih]

def text (formula : Formula) : String :=
  formula.textAs false

instance : ToString Formula := ⟨text⟩

end Clausal.Formula
