import HatCircle.Puzzle.Rule

/-!
# Puzzles

A puzzle fixes the circle: how many people, how many colours, which variables a
formula may use and how a search goes about its work. Two puzzles are built in:
ten people with ten colours, and two people with two.

`assignmentSpace` counts the hat assignments as far as 64 bits go.
-/

namespace HatCircle

/-- A variable written as a bare word. -/
structure NamedVariable where
  name : String
  rule : Rule
deriving DecidableEq, Repr

/-- A family of variables written as a letter and a distance, such as `l[3]`. -/
structure BracketFamily where
  letter : Char
  /-- Places in the circle per unit of distance. -/
  direction : Int
deriving DecidableEq, Repr

/-- What a letter with a distance stands for. The product is one of 64 bits and wraps around. -/
def BracketFamily.rule (family : BracketFamily) (distance : Nat) : Rule :=
  .neighbor (wrap64 (family.direction * distance))

example : BracketFamily.rule ⟨'l', 2 ^ 63 - 1⟩ 2 = .neighbor (-2) := by decide

/-- How a search goes through the assignments. -/
inductive Strategy where
  /-- All of them in order: a search without a find is a proof. -/
  | exhaustive
  /-- A random sample: a search without a find is evidence only. -/
  | randomized
deriving DecidableEq, Repr

inductive PuzzleKind where
  | ten
  | two
deriving DecidableEq, Repr

/-- The description of a puzzle. -/
structure Puzzle where
  kind : PuzzleKind
  personCount : Nat
  /-- How many colours there are; guesses are taken modulo this number. -/
  base : UInt8
  /-- The bare-word variables, in the order in which they are looked up. -/
  vocabulary : List NamedVariable
  /-- The bracket families, in the order in which they are looked up. -/
  brackets : List BracketFamily
  strategy : Strategy
deriving DecidableEq, Repr

namespace Puzzle

/-- Ten people, ten colours: `i`, `all`, `l[1]` to `l[9]` and `r[1]` to `r[9]`. -/
def ten : Puzzle where
  kind := .ten
  personCount := 10
  base := 10
  vocabulary := [⟨"all", .sumOfOthers⟩, ⟨"i", .ownIndex⟩]
  brackets := [⟨'l', 1⟩, ⟨'r', -1⟩]
  strategy := .randomized

/-- Two people, two colours: `i` and `other`. -/
def two : Puzzle where
  kind := .two
  personCount := 2
  base := 2
  vocabulary := [⟨"other", .neighbor 1⟩, ⟨"i", .ownIndex⟩]
  brackets := []
  strategy := .exhaustive

/-- The rule of the bare-word variable `name`: the first one of that name. -/
def named? (puzzle : Puzzle) (name : String) : Option Rule :=
  (puzzle.vocabulary.find? fun v => v.name == name).map (·.rule)

/-- The bracket family with the given letter: the first one. -/
def family? (puzzle : Puzzle) (letter : Char) : Option BracketFamily :=
  puzzle.brackets.find? fun family => family.letter == letter

def isBracketLetter (puzzle : Puzzle) (c : Char) : Bool :=
  (puzzle.family? c).isSome

/-- Is the character a digit that formulas of this puzzle may use? The digits are
those of the colours. -/
def allowsDigit (puzzle : Puzzle) (c : Char) : Bool :=
  (Numeral.digit? c).any fun d => d < puzzle.base.toNat

/-- The number by which guesses are reduced: the number of colours, and one where
there is none. -/
def modulus (base : UInt8) : Int :=
  max base.toNat 1

/-- The number of hat assignments, as long as it fits into 64 bits and the number
of people into 32. From two colours on, 64 people are too many, so the power is
never formed beyond that. -/
def assignmentSpace (puzzle : Puzzle) : Option Nat :=
  if puzzle.personCount < UInt32.size ∧ (puzzle.base.toNat ≤ 1 ∨ puzzle.personCount < 64) then
    let count := Nat.pow puzzle.base.toNat puzzle.personCount
    if count < UInt64.size then some count else none
  else none

end Puzzle

end HatCircle
