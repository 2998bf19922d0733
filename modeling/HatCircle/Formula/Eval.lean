import HatCircle.Formula.Tree

/-!
# The value of a formula

A formula is evaluated for one person under some hats, modulo the number of
colours: each leaf and each intermediate result is reduced at once.
`Expr.evaluate` needs a value for each variable it meets; `Expr.evaluateDigit`
first checks that the hats and the person fit the puzzle.
-/

namespace HatCircle

inductive EvalError where
  | personOutOfRange (person count : Nat)
  | assignmentLength (expected found : Nat)
  | unresolvedVariable (name : String)
deriving DecidableEq, Repr

namespace EvalError

def message : EvalError → String
  | .personOutOfRange person count =>
    "person " ++ Numeral.render person ++ " is outside a circle of " ++ Numeral.render count
  | .assignmentLength expected found =>
    "assignment has " ++ Numeral.render found ++ " hats, expected " ++ Numeral.render expected
  | .unresolvedVariable name => "variable `" ++ name ++ "` could not be resolved"

def toError (error : EvalError) : Error :=
  ⟨.evaluation, .new "evaluation" error.message⟩

end EvalError

/-- The remainder of a number by the number of colours, as a colour. -/
def normalize (base : UInt8) (value : Int) : Hat :=
  UInt8.ofNat (value % Puzzle.modulus base).toNat

namespace Expr

/-- The value of a formula for a person under some hats, modulo the number of
colours. The left operand is evaluated first. -/
def evaluate (base : UInt8) (hats : List Hat) (person : Nat) : Expr → Except EvalError Int
  | .number value _ => .ok (normalize base value).toNat
  | .var name rule =>
    match rule.resolve person hats with
    | some value => .ok (normalize base value).toNat
    | none => .error (.unresolvedVariable name)
  | .binary op lhs rhs => do
    let l ← lhs.evaluate base hats person
    let r ← rhs.evaluate base hats person
    return op.apply base l r

/-- The colour a formula gives a person of the puzzle. -/
def evaluateDigit (puzzle : Puzzle) (hats : List Hat) (person : Nat) (tree : Expr) :
    Except EvalError Hat :=
  if hats.length ≠ puzzle.personCount then
    .error (.assignmentLength puzzle.personCount hats.length)
  else if puzzle.personCount ≤ person then
    .error (.personOutOfRange person puzzle.personCount)
  else (tree.evaluate puzzle.base hats person).map (normalize puzzle.base)

end Expr

end HatCircle
