/-!
# Decimal numerals

Numbers are written in decimal without padding. Unsigned numbers are read with an
optional plus sign and any number of leading zeros, below a limit that the reader
gives; the reader reports the first character at which the reading cannot go on.
-/

namespace HatCircle.Numeral

/-- The decimal digits of a number, the most significant one first. -/
def digits (n : Nat) : List Char :=
  if n < 10 then [Nat.digitChar n] else digits (n / 10) ++ [Nat.digitChar (n % 10)]
termination_by n

def render (n : Nat) : String :=
  String.ofList (digits n)

/-- The numeral of an integer: a minus sign marks the negative ones. -/
def renderInt : Int → String
  | .ofNat n => render n
  | .negSucc n => "-" ++ render (n + 1)

def digit? (c : Char) : Option Nat :=
  if c.isDigit then some (c.toNat - '0'.toNat) else none

inductive Fault where
  | empty
  | invalidDigit
  | tooLarge
deriving DecidableEq, Repr

def Fault.message : Fault → String
  | .empty => "cannot parse integer from empty string"
  | .invalidDigit => "invalid digit found in string"
  | .tooLarge => "number too large to fit in target type"

/-- Reads digits onto a value already read. At one character a wrong digit is
reported rather than the limit. -/
def readDigits (limit : Nat) : Nat → List Char → Except Fault Nat
  | value, [] => .ok value
  | value, c :: rest =>
    match digit? c with
    | none => .error .invalidDigit
    | some d =>
      if value * 10 + d < limit then readDigits limit (value * 10 + d) rest
      else .error .tooLarge

/-- Reads a whole text as a number below `limit`: an optional plus sign, then at
least one digit. -/
def read (limit : Nat) : List Char → Except Fault Nat
  | [] => .error .empty
  | ['+'] => .error .invalidDigit
  | '+' :: rest => readDigits limit 0 rest
  | text => readDigits limit 0 text

end HatCircle.Numeral
