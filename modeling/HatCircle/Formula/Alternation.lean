import HatCircle.Formula.Token
import HatCircle.Formula.Rejection

/-!
# The order of tokens

Parentheses apart, the tokens of a formula are operands with one operator between
any two neighbours, and there are at most `maxTokens` of them. The rules are tried
one after the other, each on the whole list, so the reason that is reported is the
first rule that fails and, for that rule, the leftmost place.
-/

namespace HatCircle

/-- The number of tokens that a formula may not exceed. -/
def maxTokens : Nat := 12

def firstPair? (p : Token → Token → Bool) : List Token → Option (Token × Token)
  | a :: b :: rest => if p a b then some (a, b) else firstPair? p (b :: rest)
  | _ => none

/-- The leftmost operator without an operand on both sides, where `before` is the
token in front of the list. -/
def danglingAfter? (before : Option Token) : List Token → Option Token
  | [] => none
  | token :: rest =>
    if !token.isOperand && !(before.any Token.isOperand && rest.head?.any Token.isOperand) then
      some token
    else danglingAfter? (some token) rest

/-- The rules on two neighbours: first no two operators, then no two operands, then
no operator without operands on both sides. -/
def checkNeighbours (tokens : List Token) : Except Rejection Unit :=
  match firstPair? (fun a b => !a.isOperand && !b.isOperand) tokens with
  | some (a, b) => .error (.consecutiveOperators a.text b.text)
  | none =>
    match firstPair? (fun a b => a.isOperand && b.isOperand) tokens with
    | some (a, b) => .error (.missingOperator a.text b.text)
    | none =>
      match danglingAfter? none tokens with
      | some token => .error (.danglingOperator token.text)
      | none => .ok ()

def checkTokens (tokens : List Token) : Except Rejection Unit :=
  if maxTokens < tokens.length then .error (.tooManyTokens tokens.length maxTokens)
  else
    match tokens.head?, tokens.getLast? with
    | some first, some last =>
      if !first.isOperand then .error .leadingOperator
      else if !last.isOperand then .error .trailingOperator
      else checkNeighbours tokens
    | _, _ => .error .noOperand

end HatCircle
