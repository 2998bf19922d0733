import HatCircle.Search.Outcome
import HatCircle.Search.Score

/-!
# Reports

What a search reports beside its outcome: the strategy, the number of assignments
it tried and whether a clean outcome is a proof.
-/

namespace HatCircle

/-- The report of a search. -/
structure Report where
  /-- What was found. -/
  outcome : Outcome
  /-- How the search went. -/
  strategy : Strategy
  /-- How many assignments were tried. -/
  trials : Nat
  /-- Is the outcome clean over all assignments? -/
  proven : Bool
deriving DecidableEq, Repr

end HatCircle
