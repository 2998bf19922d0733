import HatCircle.Random.Generator
import HatCircle.Search.Exhaustive
import HatCircle.Search.Randomized

/-!
# Searches

A search with the strategy of the puzzle, from a given source of words or from a
seed.
-/

namespace HatCircle.Formula

/-- Searches as the puzzle of the formula says. An exhaustive search leaves the
source alone. -/
def searchWith {σ : Type} [WordSource σ] (formula : Formula) (bounds : Bounds)
    (cap : Option Nat) (clock : Nat → Bool) (source : σ) : Option (Report × σ) :=
  match formula.puzzle.strategy with
  | .exhaustive => some (formula.exhaustive, source)
  | .randomized => formula.randomized bounds cap clock source

def searchSeeded (formula : Formula) (bounds : Bounds) (cap : Option Nat) (clock : Nat → Bool)
    (seed : UInt64) : Option Report :=
  (formula.searchWith bounds cap clock (Generator.ofSeed seed)).map (·.1)

/-- Searches with some options; `fresh` is the seed where the options have none. -/
def search (formula : Formula) (bounds : Bounds) (options : Options) (clock : Nat → Bool)
    (fresh : UInt64) : Option Report :=
  formula.searchSeeded bounds options.maxTrials clock (options.seed.getD fresh)

end HatCircle.Formula
