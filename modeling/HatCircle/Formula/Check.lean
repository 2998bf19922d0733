import HatCircle.Formula.Alternation
import HatCircle.Formula.Brackets
import HatCircle.Text.Blank

/-!
# Which texts are formulas

A text is checked in a fixed order: it holds something, its groups are sound, its
characters belong to the puzzle, its brackets are sound, it has an operand, it
splits into lexemes and its tokens alternate. The first check that fails gives the
reason.
-/

namespace HatCircle

/-- Does a digit or a variable name occur in the text? -/
def Puzzle.hasOperand (puzzle : Puzzle) (text : List Char) : Bool :=
  text.any Char.isDigit || puzzle.vocabulary.any fun v => Text.occursIn v.name.toList text

/-- The lexemes of a text that is a formula of the puzzle. -/
def checkLexemes (puzzle : Puzzle) (source : String) : Except Rejection (List Lexeme) := do
  let text := Text.compact source.toList
  if text.isEmpty then throw .empty
  checkParentheses text
  checkCharset puzzle text
  checkBrackets puzzle (maskWords puzzle text)
  if !puzzle.hasOperand text then throw .noOperand
  match lex puzzle text with
  | .error error => throw (.invalidCharacters (String.ofList [error.char]))
  | .ok lexemes =>
    checkTokens (Lexeme.tokens lexemes)
    return lexemes

/-- The tokens of a text that is a formula of the puzzle. -/
def check (puzzle : Puzzle) (source : String) : Except Rejection (List Token) :=
  (checkLexemes puzzle source).map Lexeme.tokens

structure Verdict where
  isValid : Bool
  error : String
  category : Option String
deriving DecidableEq, Repr

def Verdict.valid : Verdict := ⟨true, "", none⟩

def Rejection.verdict (rejection : Rejection) : Verdict :=
  ⟨false, rejection.message, some rejection.category⟩

def validate (puzzle : Puzzle) (source : String) : Verdict :=
  match check puzzle source with
  | .ok _ => .valid
  | .error rejection => rejection.verdict

end HatCircle
