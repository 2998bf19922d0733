import HatCircle.Random.Source
import HatCircle.Search.Options
import HatCircle.Search.Report

/-!
# Randomized search

Random assignments are tried until one is a counterexample, the cap on trials is
reached or the time is up. At least one assignment is tried. A clean outcome is
evidence, never a proof.

The clock is an argument: after each trial it says whether the time is up. Nothing
in the search itself bounds the number of trials and of words, so `Bounds` does; a
search that reaches them gives nothing.
-/

namespace HatCircle

structure Bounds where
  words : Nat
  trials : Nat
deriving DecidableEq, Repr

namespace Formula

/-- The report after a trial, if the search ends there: `trials` counts this one. -/
def settle (formula : Formula) (cap : Option Nat) (timeUp : Bool) (trials : Nat)
    (assignment : Assignment) : Option Report :=
  if !formula.hasCorrectGuesser assignment.hats then
    some ⟨.counterexample assignment, .randomized, trials, false⟩
  else if cap.any (· ≤ trials) || timeUp then
    some ⟨.noCounterexampleFound assignment, .randomized, trials, false⟩
  else none

variable {σ : Type} [WordSource σ]

/-- Goes on after `done` trials, for at most as many trials as the last number but
two allows. -/
def randomizedFrom (formula : Formula) (words : Nat) (cap : Option Nat) (clock : Nat → Bool) :
    Nat → (done : Nat) → σ → Option (Report × σ)
  | 0, _, _ => none
  | remaining + 1, done, source => do
    let (assignment, source) ← WordSource.drawAssignment words formula.puzzle source
    match formula.settle cap (clock (done + 1)) (done + 1) assignment with
    | some report => return (report, source)
    | none => formula.randomizedFrom words cap clock remaining (done + 1) source

/-- Tries random assignments, and returns the source as the search leaves it. -/
def randomized (formula : Formula) (bounds : Bounds) (cap : Option Nat) (clock : Nat → Bool)
    (source : σ) : Option (Report × σ) :=
  formula.randomizedFrom bounds.words cap clock bounds.trials 0 source

end Formula

end HatCircle
