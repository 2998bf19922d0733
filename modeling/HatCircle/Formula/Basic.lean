import HatCircle.Formula.Check
import HatCircle.Formula.Eval
import HatCircle.Formula.Parser

/-!
# Formulas

A formula is a checked text with its tokens, its tree and its puzzle. `compile`
makes one from a text, `guess` is the colour it tells a person to guess, and
`noGuess` stands where there is none.
-/

namespace HatCircle

structure Formula where
  source : String
  tokens : List Token
  tree : Expr
  puzzle : Puzzle
deriving DecidableEq, Repr

/-- Stands for a guess that cannot be computed. No hat has this colour. -/
def noGuess : Int := -1

namespace Formula

inductive Failure where
  | rejected (rejection : Rejection)
  | unparsed (error : ParseError)
deriving DecidableEq, Repr

/-- The report of a failure, without the text that failed. -/
def Failure.report : Failure → Error
  | .rejected rejection => rejection.toError
  | .unparsed error => error.toError

def Failure.toError (failure : Failure) (source : String) : Error :=
  ⟨failure.report.family, failure.report.info.withContext "formula" source⟩

/-- Makes a formula of a text. -/
def compile (puzzle : Puzzle) (source : String) : Except Failure Formula :=
  match checkLexemes puzzle source with
  | .error rejection => .error (.rejected rejection)
  | .ok lexemes =>
    match parse puzzle lexemes with
    | .error error => .error (.unparsed error)
    | .ok tree => .ok ⟨source, Lexeme.tokens lexemes, tree, puzzle⟩

def canonical (formula : Formula) : String :=
  formula.tree.render

def guess? (formula : Formula) (hats : List Hat) (person : Nat) : Except EvalError Hat :=
  formula.tree.evaluateDigit formula.puzzle hats person

/-- The guess of a person as a number. -/
def guess (formula : Formula) (hats : List Hat) (person : Nat) : Int :=
  match formula.guess? hats person with
  | .ok hat => hat.toNat
  | .error _ => noGuess

end Formula

def evaluateGuess (puzzle : Puzzle) (source : String) (hats : List Hat) (person : Nat) : Int :=
  match Formula.compile puzzle source with
  | .ok formula => formula.guess hats person
  | .error _ => noGuess

end HatCircle
