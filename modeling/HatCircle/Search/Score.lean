import HatCircle.Assignment.Basic
import HatCircle.Formula.Basic

/-!
# Scores

Everybody's guess for one assignment, and who is right. An assignment for which
nobody is right is a counterexample to the formula. `hasCorrectGuesser` asks the
same question without the score and stops at the first person who is right.
-/

namespace HatCircle

structure Score where
  assignment : Assignment
  guesses : List Int
  correct : List Nat
deriving DecidableEq, Repr

def Score.isCounterexample (score : Score) : Bool :=
  score.correct.isEmpty

namespace Formula

def isRight (formula : Formula) (hats : List Hat) (person : Nat) (hat : Hat) : Bool :=
  formula.guess hats person == hat.toNat

/-- Everybody's guess for an assignment, and who is right. -/
def score (formula : Formula) (assignment : Assignment) : Score :=
  let hats := assignment.hats
  let guesses := (List.range hats.length).map fun person => formula.guess hats person
  let right := (guesses.zip hats).zipIdx.filter fun entry => entry.1.1 == entry.1.2.toNat
  ⟨assignment, guesses, right.map (·.2)⟩

/-- Is somebody right, when the people from `person` on wear these hats? -/
def anyRightFrom (formula : Formula) (hats : List Hat) (person : Nat) : List Hat → Bool
  | [] => false
  | hat :: rest =>
    formula.isRight hats person hat || formula.anyRightFrom hats (person + 1) rest

/-- Is somebody right? -/
def hasCorrectGuesser (formula : Formula) (hats : List Hat) : Bool :=
  formula.anyRightFrom hats 0 hats

end Formula

end HatCircle
