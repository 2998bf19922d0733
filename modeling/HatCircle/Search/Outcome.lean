import HatCircle.Formula.Basic
import HatCircle.Assignment.Basic

/-!
# Outcomes

The outcome of a search is a verdict with an assignment. Its wire form is a plain
list of numbers: the hats, and after them the number `noGuess` if no counterexample
was found. No hat has that number, so the length tells the two verdicts apart.
-/

namespace HatCircle

inductive Outcome where
  | counterexample (assignment : Assignment)
  | noCounterexampleFound (assignment : Assignment)
deriving DecidableEq, Repr

inductive WireError where
  /-- It has neither the length of an assignment nor one number more, that being the mark. -/
  | shape (length personCount : Nat)
  | value (number : Int)
  | assignment (error : AssignmentError)
deriving DecidableEq, Repr

def WireError.toError : WireError → Error
  | .shape length personCount =>
    ⟨.wire, ((ErrorInfo.new "wire-shape" "search outcome has an unexpected shape").withContext
      "length" (Numeral.render length)).withContext "person_count" (Numeral.render personCount)⟩
  | .value number =>
    ⟨.wire, (ErrorInfo.new "wire-value" "hat colour out of range").withContext
      "value" (Numeral.renderInt number)⟩
  | .assignment error => ⟨.wire, error.info⟩

namespace Outcome

def assignment : Outcome → Assignment
  | .counterexample assignment => assignment
  | .noCounterexampleFound assignment => assignment

def isCounterexample : Outcome → Bool
  | .counterexample _ => true
  | .noCounterexampleFound _ => false

def hatNumbers (assignment : Assignment) : List Int :=
  assignment.hats.map fun hat => (hat.toNat : Int)

def toWire : Outcome → List Int
  | .counterexample assignment => hatNumbers assignment
  | .noCounterexampleFound assignment => hatNumbers assignment ++ [noGuess]

def readHat (number : Int) : Except WireError Hat :=
  if 0 ≤ number ∧ number < 256 then .ok (UInt8.ofNat number.toNat) else .error (.value number)

def readAssignment (puzzle : Puzzle) (numbers : List Int) : Except WireError Assignment := do
  let hats ← numbers.mapM readHat
  (Assignment.ofHats puzzle hats).mapError .assignment

def ofWire (puzzle : Puzzle) (wire : List Int) : Except WireError Outcome :=
  let count := puzzle.personCount
  if wire.length = count then
    (readAssignment puzzle wire).map .counterexample
  else if wire.length = count + 1 ∧ wire[count]? = some noGuess then
    (readAssignment puzzle (wire.take count)).map .noCounterexampleFound
  else .error (.shape wire.length count)

end Outcome

end HatCircle
