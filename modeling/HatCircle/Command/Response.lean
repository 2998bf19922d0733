import HatCircle.Assignment.Text
import HatCircle.Command.Basic
import HatCircle.Json.Formula
import HatCircle.Json.Printer
import HatCircle.Json.Search
import HatCircle.Search.OptionsFile

/-!
# Responses

What a command prints and the status it ends with: 0 for success, 1 for a command
that fails, 2 for a command line that is refused. Documents are printed on several
lines, and a command that fails prints none, save that a verdict is always printed.

A search takes time and chance from outside, so a command is prepared first:
`Command.prepare` either responds or leaves a `SearchJob` that is ready to run.
-/

namespace HatCircle

structure Response where
  status : UInt32
  output : String
  complaint : String
deriving DecidableEq, Repr

namespace Response

def page (document : Json) : String :=
  document.pretty ++ "\n"

def success (document : Json) : Response :=
  ⟨0, page document, ""⟩

def failure (error : Error) : Response :=
  ⟨1, "", error.text⟩

def refusal (error : UsageError) : Response :=
  ⟨2, "", error.message⟩

/-- The document of a value, or the failure that stands in its place. -/
def ofResult (result : Except Error Json) : Response :=
  match result with
  | .ok document => success document
  | .error error => failure error

end Response

/-- The document of a verdict, which is a failure unless the text is a formula. -/
def Verdict.respond (verdict : Verdict) : Response :=
  ⟨if verdict.isValid then 0 else 1, Response.page verdict.toJson, verdict.error⟩

/-- The document of a report of a search that took some milliseconds. -/
def ReportForm.toJson (form : ReportForm) (report : Report) (elapsedMs : Nat) : Json :=
  match form with
  | .full => report.toJson elapsedMs
  | .wire => wireJson report.outcome.toWire

def Formula.tokensJson (formula : Formula) : Json :=
  .obj [("canonical", .str formula.canonical), ("tokens", .arr (formula.tokens.map Token.toJson))]

def Formula.guessJson (formula : Formula) (assignment : Assignment) (person : Nat) : Json :=
  .obj [("guess", .int (formula.guess assignment.hats person)),
    ("hat", .ofOption (fun hat => .ofNat hat.toNat) (assignment.hat? person)),
    ("person", .ofNat person)]

structure SearchJob where
  formula : Formula
  options : Options
  runs : Option Nat
  form : ReportForm
deriving DecidableEq, Repr

namespace SearchJob

/-- The document of the search. The clock knows the run and the trial, `fresh` is the
seed where the options have none, and a single search takes `elapsedMs`. -/
def run (job : SearchJob) (bounds : Bounds) (clock : Nat → Nat → Bool) (fresh : UInt64)
    (elapsedMs : Nat) : Option Json :=
  match job.runs with
  | some runs => (job.formula.batch bounds job.options clock fresh runs).map Batch.toJson
  | none =>
    (job.formula.search bounds job.options (clock 0) fresh).map fun report =>
      job.form.toJson report elapsedMs

end SearchJob

namespace SearchRequest

def job (request : SearchRequest) (file : Option (String × Except String String)) :
    Except Error SearchJob := do
  let options ← (Options.resolve file request.overrides).mapError (·.toError)
  let formula ← (Formula.compile request.puzzle.puzzle request.formula).mapError
    (·.toError request.formula)
  return ⟨formula, options, request.runs, request.form⟩

end SearchRequest

namespace Command

inductive Step where
  | respond (response : Response)
  | search (job : SearchJob)
deriving DecidableEq, Repr

/-- The formula of a text and the assignment of another. The formula comes first. -/
def position (puzzle : PuzzleKind) (source hats : String) :
    Except Error (Formula × Assignment) := do
  let formula ← (Formula.compile puzzle.puzzle source).mapError (·.toError source)
  let assignment ← (Assignment.ofText puzzle.puzzle hats).mapError (·.toError)
  return (formula, assignment)

/-- Does all of a command but search. The file is the one the command needs. -/
def prepare (command : Command) (file : Option (String × Except String String)) : Step :=
  match command with
  | .validate puzzle source => .respond (HatCircle.validate puzzle.puzzle source).respond
  | .tokens puzzle source =>
    .respond (.ofResult (((Formula.compile puzzle.puzzle source).map (·.tokensJson)).mapError
      (·.toError source)))
  | .guess puzzle source hats person =>
    .respond (.ofResult ((position puzzle source hats).map fun (formula, assignment) =>
      formula.guessJson assignment person))
  | .score puzzle source hats =>
    .respond (.ofResult ((position puzzle source hats).map fun (formula, assignment) =>
      (formula.score assignment).toJson))
  | .search request =>
    match request.job file with
    | .ok job => .search job
    | .error error => .respond (.failure error)

end Command

end HatCircle
