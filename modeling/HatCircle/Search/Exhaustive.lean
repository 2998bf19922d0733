import HatCircle.Search.Report

/-!
# Exhaustive search

All assignments are tried in lexicographic order up to the first counterexample.
A search that reaches the end without one reports the last assignment it tried and
counts as a proof.
-/

namespace HatCircle.Formula

/-- Tries `remaining` assignments from number `index` on; `last` is the one tried
before, and all `index` before were tried. -/
def exhaustiveFrom (formula : Formula) : (remaining index : Nat) → (last : Assignment) → Report
  | 0, index, last => ⟨.noCounterexampleFound last, .exhaustive, index, true⟩
  | remaining + 1, index, _ =>
    let assignment := Assignment.ofIndex formula.puzzle index
    if formula.hasCorrectGuesser assignment.hats then
      formula.exhaustiveFrom remaining (index + 1) assignment
    else ⟨.counterexample assignment, .exhaustive, index + 1, false⟩

/-- Tries all assignments in order. When there are too many of them to count, as
many are tried as 64 bits count. -/
def exhaustive (formula : Formula) : Report :=
  let space := formula.puzzle.assignmentSpace.getD (UInt64.size - 1)
  formula.exhaustiveFrom space 0 (Assignment.ofIndex formula.puzzle 0)

end HatCircle.Formula
