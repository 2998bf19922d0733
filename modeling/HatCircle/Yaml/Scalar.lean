import HatCircle.Text.Numeral

/-!
# Scalars of YAML

A scalar is a text that was written in one of five styles, perhaps with a tag. What
it stands for depends on all three: only plain scalars stand for nothing, and only
plain ones and tagged literals for a number. Numbers are unsigned, in decimal,
hexadecimal, octal or binary. A decimal number has no leading zeros, since digits
with leading zeros are a text.
-/

namespace HatCircle.Yaml

inductive Style where
  | plain
  | single
  | double
  | literal
  | folded
deriving DecidableEq, Repr

structure Scalar where
  style : Style
  tag : Option String
  text : String
deriving DecidableEq, Repr

/-- The scalar that stands where nothing was written. -/
def Scalar.empty : Scalar :=
  ⟨.plain, none, ""⟩

def nullTag : String := "tag:yaml.org,2002:null"

def intTag : String := "tag:yaml.org,2002:int"

/-- The texts that stand for nothing, apart from the empty one. -/
def nullTexts : List String :=
  ["null", "Null", "NULL", "~"]

/-- The value of a digit in a base of at most sixteen. -/
def digitIn? (base : Nat) (c : Char) : Option Nat :=
  let value :=
    if c.isDigit then some (c.toNat - '0'.toNat)
    else if 'a' ≤ c && c ≤ 'f' then some (c.toNat - 'a'.toNat + 10)
    else if 'A' ≤ c && c ≤ 'F' then some (c.toNat - 'A'.toNat + 10)
    else none
  value.filter fun d => d < base

/-- The number of some digits in a base, if there are digits and the number has at
most 64 bits. -/
def numberIn? (base : Nat) (digits : List Char) : Option Nat := do
  if digits.isEmpty then none
  let values ← digits.mapM (digitIn? base)
  let number := values.foldl (fun number d => number * base + d) 0
  if number < UInt64.size then some number else none

/-- The number of digits behind a mark for their base. -/
def marked? : List Char → Option Nat
  | '0' :: 'x' :: digits => numberIn? 16 digits
  | '0' :: 'o' :: digits => numberIn? 8 digits
  | '0' :: 'b' :: digits => numberIn? 2 digits
  | _ => none

/-- The number of digits without a superfluous zero in front. -/
def decimal? : List Char → Option Nat
  | ['0'] => some 0
  | '0' :: _ => none
  | digits => numberIn? 10 digits

/-- The unsigned number that a text stands for. It may have a plus sign. -/
def unsigned? (text : String) : Option Nat :=
  let digits := match text.toList with
    | '+' :: digits => digits
    | digits => digits
  (marked? digits).or (decimal? digits)

namespace Scalar

def number? (scalar : Scalar) : Option Nat :=
  if scalar.style = .plain ∨ (scalar.style = .literal ∧ scalar.tag = some intTag) then
    unsigned? scalar.text
  else none

/-- The unsigned number that a scalar stands for, if it does not stand for nothing.
The tag of nothing asks for one of its texts. -/
def numberOrNull? (scalar : Scalar) : Option (Option Nat) :=
  let isNull := nullTexts.contains scalar.text
  if scalar.style = .plain ∧ scalar.tag = some nullTag then
    if isNull then some none else none
  else if scalar.style = .plain ∧ scalar.tag = none ∧ (isNull ∨ scalar.text = "") then
    some none
  else scalar.number?.map some

end Scalar

end HatCircle.Yaml
