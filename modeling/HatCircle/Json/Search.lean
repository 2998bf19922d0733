import HatCircle.Json.Puzzle
import HatCircle.Search.Batch

/-!
# Documents of searches

How outcomes, reports, scores and tallies are written as documents, and how
outcomes are read. Reports leave room for the time a search took, which is not part
of what it found.
-/

namespace HatCircle

/-- The document of an assignment: the list of its hats. -/
def Assignment.toJson (assignment : Assignment) : Json :=
  .ofBytes assignment.hats

/-- The assignment of a document, whether it fits a puzzle or not. -/
def Assignment.ofJson? (document : Json) : Option Assignment :=
  document.bytes?.map .mk

namespace Outcome

def verdict : Outcome → String
  | .counterexample _ => "counterexample"
  | .noCounterexampleFound _ => "no-counterexample-found"

def toJson (outcome : Outcome) : Json :=
  .obj [("verdict", .str outcome.verdict), ("assignment", outcome.assignment.toJson)]

def ofJson? (document : Json) : Option Outcome :=
  match document.tagged? "verdict" "assignment" with
  | some ("counterexample", content) => (Assignment.ofJson? content).map .counterexample
  | some ("no-counterexample-found", content) =>
    (Assignment.ofJson? content).map .noCounterexampleFound
  | _ => none

end Outcome

def wireJson (wire : List Int) : Json :=
  .arr (wire.map .int)

/-- The document of a report of a search that took some milliseconds. -/
def Report.toJson (report : Report) (elapsedMs : Nat) : Json :=
  .obj [("outcome", report.outcome.toJson), ("strategy", .str report.strategy.name),
    ("trials", .ofNat report.trials), ("elapsed_ms", .ofNat elapsedMs),
    ("proven", .bool report.proven)]

def Score.toJson (score : Score) : Json :=
  .obj [("assignment", score.assignment.toJson), ("guesses", .arr (score.guesses.map .int)),
    ("correct", .arr (score.correct.map .ofNat))]

def Batch.toJson (batch : Batch) : Json :=
  .obj [("master_seed", .ofNat batch.masterSeed.toNat), ("runs", .ofNat batch.runs),
    ("counterexamples", .ofNat batch.counterexamples), ("clean", .ofNat batch.clean),
    ("first_counterexample", .ofOption Assignment.toJson batch.firstCounterexample)]

end HatCircle
