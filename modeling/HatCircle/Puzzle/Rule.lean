import HatCircle.Error
import HatCircle.Puzzle.Word

/-!
# Rules of variables

A variable of a formula stands for a number that the guessing person can work
out: their own place in the circle, the sum of the other hats, or the hat of the
person some places away. `Rule.resolve` gives that number.
-/

namespace HatCircle

/-- A hat colour. Colours are numbered from zero, and a puzzle never has more than
a byte can count. -/
abbrev Hat := UInt8

/-- What a variable stands for. -/
inductive Rule where
  /-- The place of the guessing person. -/
  | ownIndex
  /-- The sum of all hats but that of the guessing person. -/
  | sumOfOthers
  /-- The hat of the person `offset` places further round the circle. -/
  | neighbor (offset : Int)
deriving DecidableEq, Repr

/-- The sum of the colours of some hats. -/
def hatSum : List Hat → Nat
  | [] => 0
  | hat :: rest => hat.toNat + hatSum rest

namespace Rule

/-- The place `offset` places from `person` in a circle of `count`. The sum is one of 64 bits:
it wraps around before it is counted round the circle. -/
def seat (person : Nat) (offset : Int) (count : Nat) : Nat :=
  (wrap64 (person + offset) % count).toNat

/-- The number the rule gives `person` under these hats, if the person has a place. -/
def resolve (rule : Rule) (person : Nat) (hats : List Hat) : Option Int :=
  if person < hats.length then
    match rule with
    | .ownIndex => some person
    | .sumOfOthers => some (hatSum (hats.eraseIdx person))
    | .neighbor offset =>
      hats[seat person offset hats.length]?.map fun hat => (hat.toNat : Int)
  else none

/-- Of three people, the one next to the first is led to person 1 by the greatest offset, as
the sum wraps around to the least number. -/
example : (neighbor (2 ^ 63 - 1)).resolve 1 [0, 1, 2] = some 1 := by decide

end Rule

end HatCircle
