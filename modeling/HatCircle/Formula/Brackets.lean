import HatCircle.Formula.Charset
import HatCircle.Formula.Grouping
import HatCircle.Formula.Lexer

/-!
# Bracketed variables

Each bracket letter must be followed by a bracket that holds one digit from 1 to
9, and a bracket stands nowhere else. The words of the puzzle may contain bracket
letters, so they are masked before the brackets are looked at.
-/

namespace HatCircle

/-- The word of the puzzle with which a text begins: the first one in table order. -/
def Puzzle.wordAt? (puzzle : Puzzle) (text : List Char) : Option (List Char) :=
  puzzle.words.find? fun word => word.isPrefixOf text

/-- The text with each word of the puzzle replaced by a placeholder. -/
def maskWords (puzzle : Puzzle) : List Char → List Char
  | [] => []
  | c :: rest =>
    match puzzle.wordAt? (c :: rest) with
    | some word => placeholder :: maskWords puzzle (rest.drop (word.length - 1))
    | none => c :: maskWords puzzle rest
termination_by text => text.length
decreasing_by all_goals (simp only [List.length_drop, List.length_cons]; omega)

def isSingleDistance : List Char → Bool
  | [c] => isDistance c
  | _ => false

/-- Checks the brackets of a text from left to right. -/
def checkBrackets (puzzle : Puzzle) : List Char → Except Rejection Unit
  | [] => .ok ()
  | c :: rest =>
    if puzzle.isBracketLetter c then
      match rest with
      | '[' :: inner =>
        match _h : inner.dropWhile (· != ']') with
        | [] => .error (.malformedBracket (String.ofList (c :: rest)))
        | _ :: after =>
          let content := inner.takeWhile (· != ']')
          if isSingleDistance content then
            checkBrackets puzzle after
          else .error (.invalidBracketContent (String.ofList content))
      | _ => .error (.malformedBracket (String.ofList ((c :: rest).take 2)))
    else if c = '[' ∨ c = ']' then .error (.malformedBracket (String.ofList [c]))
    else checkBrackets puzzle rest
termination_by text => text.length
decreasing_by
  · have := (List.dropWhile_suffix (l := inner) (· != ']')).length_le
    simp only [_h, List.length_cons] at this ⊢
    omega
  · simp

end HatCircle
