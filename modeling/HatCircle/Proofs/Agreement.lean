import HatCircle.Proofs.Exhaustive
import HatCircle.Search.Batch

/-!
# Searches depend on guesses alone

A search asks a formula for its puzzle and for guesses, and for nothing else. Formulas of one
puzzle that guess the same (`Agrees`) are right together, so every search takes the same course
with both: it tries the same assignments, takes the same words from its source and stops at the
same trial with the same report.
-/

namespace HatCircle.Formula

/-- Formulas of one puzzle that tell everybody the same under all hats. -/
structure Agrees (formula other : Formula) : Prop where
  puzzle : formula.puzzle = other.puzzle
  guess : ∀ hats person, formula.guess hats person = other.guess hats person

namespace Agrees

variable {formula other : Formula} (agrees : formula.Agrees other)
include agrees

theorem anyRightFrom_eq (hats : List Hat) (person : Nat) (rest : List Hat) :
    formula.anyRightFrom hats person rest = other.anyRightFrom hats person rest := by
  induction rest generalizing person with
  | nil => rfl
  | cons hat rest ih => rw [anyRightFrom, anyRightFrom, ih, isRight, isRight, agrees.guess]

theorem hasCorrectGuesser_eq (hats : List Hat) :
    formula.hasCorrectGuesser hats = other.hasCorrectGuesser hats :=
  agrees.anyRightFrom_eq hats 0 hats

theorem exhaustiveFrom_eq (remaining index : Nat) (last : Assignment) :
    formula.exhaustiveFrom remaining index last = other.exhaustiveFrom remaining index last := by
  induction remaining generalizing index last with
  | zero => rfl
  | succ remaining ih =>
      simp only [exhaustiveFrom, agrees.puzzle, agrees.hasCorrectGuesser_eq, ih]

theorem exhaustive_eq : formula.exhaustive = other.exhaustive := by
  simp only [exhaustive, agrees.puzzle, agrees.exhaustiveFrom_eq]

theorem settle_eq (cap : Option Nat) (timeUp : Bool) (trials : Nat) (assignment : Assignment) :
    formula.settle cap timeUp trials assignment = other.settle cap timeUp trials assignment := by
  rw [settle, settle, agrees.hasCorrectGuesser_eq]

section Random

variable {σ : Type} [WordSource σ] (cap : Option Nat)

theorem randomizedFrom_eq (words : Nat) (clock : Nat → Bool) (remaining done : Nat)
    (source : σ) : formula.randomizedFrom words cap clock remaining done source =
      other.randomizedFrom words cap clock remaining done source := by
  induction remaining generalizing done source with
  | zero => rfl
  | succ remaining ih => simp only [randomizedFrom, agrees.puzzle, agrees.settle_eq, ih]

theorem randomized_eq (bounds : Bounds) (clock : Nat → Bool) (source : σ) :
    formula.randomized bounds cap clock source = other.randomized bounds cap clock source :=
  agrees.randomizedFrom_eq cap bounds.words clock bounds.trials 0 source

theorem searchWith_eq (bounds : Bounds) (clock : Nat → Bool) (source : σ) :
    formula.searchWith bounds cap clock source = other.searchWith bounds cap clock source := by
  simp only [searchWith, agrees.puzzle, agrees.exhaustive_eq, agrees.randomized_eq]

end Random

theorem searchSeeded_eq (bounds : Bounds) (cap : Option Nat) (clock : Nat → Bool)
    (seed : UInt64) :
    formula.searchSeeded bounds cap clock seed = other.searchSeeded bounds cap clock seed := by
  rw [searchSeeded, searchSeeded, agrees.searchWith_eq]

theorem batchFrom_eq (bounds : Bounds) (cap : Option Nat) (clock : Nat → Nat → Bool)
    (remaining run : Nat) (batch : Batch) :
    formula.batchFrom bounds cap clock remaining run batch =
      other.batchFrom bounds cap clock remaining run batch := by
  induction remaining generalizing run batch with
  | zero => rfl
  | succ remaining ih => simp only [batchFrom, agrees.searchSeeded_eq, ih]

theorem batch_eq (bounds : Bounds) (options : Options) (clock : Nat → Nat → Bool)
    (fresh : UInt64) (runs : Nat) :
    formula.batch bounds options clock fresh runs =
      other.batch bounds options clock fresh runs :=
  agrees.batchFrom_eq bounds options.maxTrials clock runs 0 _

end Agrees

end HatCircle.Formula
