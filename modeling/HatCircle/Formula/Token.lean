import HatCircle.Puzzle.Basic

/-!
# Tokens

The pieces of a formula. A token is a number, a variable or an operator; a lexeme
is a token or a parenthesis, which groups but does not count as a token.
-/

namespace HatCircle

inductive Operator where
  | add
  | sub
  | mul
deriving DecidableEq, Repr

namespace Operator

def sign : Operator → Char
  | .add => '+'
  | .sub => '-'
  | .mul => '×'

def ofChar? (c : Char) : Option Operator :=
  if c = '+' then some .add
  else if c = '-' then some .sub
  else if c = '×' then some .mul
  else none

def symbol (op : Operator) : String :=
  String.ofList [op.sign]

def ofSymbol? (text : String) : Option Operator :=
  match text.toList with
  | [c] => ofChar? c
  | _ => none

end Operator

def isOperator (c : Char) : Bool :=
  (Operator.ofChar? c).isSome

/-- A piece of a formula that counts. -/
inductive Token where
  | number (digits : String)
  | variable (name : String)
  | operator (op : Operator)
deriving DecidableEq, Repr

inductive TokenKind where
  | number
  | variable
  | operator
deriving DecidableEq, Repr

def Token.kind : Token → TokenKind
  | .number _ => .number
  | .variable _ => .variable
  | .operator _ => .operator

def Token.text : Token → String
  | .number digits => digits
  | .variable name => name
  | .operator op => op.symbol

def Token.isOperand : Token → Bool
  | .operator _ => false
  | _ => true

/-- A piece of a formula. -/
inductive Lexeme where
  | token (value : Token)
  | opening
  | closing
deriving DecidableEq, Repr

def Lexeme.text : Lexeme → String
  | .token value => value.text
  | .opening => "("
  | .closing => ")"

def Lexeme.token? : Lexeme → Option Token
  | .token value => some value
  | _ => none

def Lexeme.tokens (lexemes : List Lexeme) : List Token :=
  lexemes.filterMap Lexeme.token?

end HatCircle
