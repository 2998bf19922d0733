import HatCircle.Formula.Token

/-!
# Formula trees

The tree of a formula and its canonical text. The text has blanks around the
operators and parentheses only where the tree would otherwise read differently:
around an operand that binds more weakly than its operator, and around a right
operand of a subtraction that binds equally strongly.
-/

namespace HatCircle

def Operator.precedence : Operator → Nat
  | .add => 1
  | .sub => 1
  | .mul => 2

def Operator.exact : Operator → Int → Int → Int
  | .add, l, r => l + r
  | .sub, l, r => l - r
  | .mul, l, r => l * r

/-- The result of an operator, reduced by the number of colours. -/
def Operator.apply (op : Operator) (base : UInt8) (l r : Int) : Int :=
  op.exact l r % Puzzle.modulus base

/-- A formula as a tree. -/
inductive Expr where
  /-- A number: its value and its digits as written. -/
  | number (value : Int) (literal : String)
  | var (name : String) (rule : Rule)
  | binary (op : Operator) (lhs rhs : Expr)
deriving DecidableEq, Repr

namespace Expr

/-- How strongly the operator at the root binds, if there is one. -/
def precedence? : Expr → Option Nat
  | .binary op _ _ => some op.precedence
  | _ => none

/-- Does this left operand of `op` need parentheses? -/
def wrapsLeft (operand : Expr) (op : Operator) : Bool :=
  operand.precedence?.any fun p => p < op.precedence

/-- Does this right operand of `op` need parentheses? -/
def wrapsRight (operand : Expr) (op : Operator) : Bool :=
  operand.precedence?.any fun p =>
    p < op.precedence || (p == op.precedence && op == .sub)

def parenthesize (wrap : Bool) (text : String) : String :=
  if wrap then "(" ++ text ++ ")" else text

def render : Expr → String
  | .number _ literal => literal
  | .var name _ => name
  | .binary op lhs rhs =>
    parenthesize (lhs.wrapsLeft op) lhs.render ++ " " ++ op.symbol ++ " " ++
      parenthesize (rhs.wrapsRight op) rhs.render

end Expr

end HatCircle
