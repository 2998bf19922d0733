import HatCircle.Command.Response

/-!
# The command line

Reads the file with options, runs searches on the clock of the machine and prints
responses. What is printed and when a search ends is decided elsewhere.
-/

namespace HatCircle

def readText (path : String) : IO (Except String String) := do
  try
    return .ok (← IO.FS.readFile path)
  catch error =>
    return .error (toString error)

def freshSeed : IO UInt64 := do
  let bytes ← IO.getRandomBytes 8
  return bytes.toList.foldl (fun seed byte => seed * 256 + byte.toUInt64) 0

/-- Goes on with a random search after `done` trials. -/
partial def sampleFrom (formula : Formula) (options : Options) (start done : Nat)
    (source : Generator) : IO Report := do
  match WordSource.drawAssignment 65536 formula.puzzle source with
  | none => throw (IO.userError "the random source yields no hats")
  | some (assignment, source) =>
    let timeUp := options.budgetMs ≤ (← IO.monoMsNow) - start
    match formula.settle options.maxTrials timeUp (done + 1) assignment with
    | some report => return report
    | none => sampleFrom formula options start (done + 1) source

def searchNow (formula : Formula) (options : Options) (seed : UInt64) : IO Report := do
  match formula.puzzle.strategy with
  | .exhaustive => return formula.exhaustive
  | .randomized => sampleFrom formula options (← IO.monoMsNow) 0 (.ofSeed seed)

def SearchJob.runNow (job : SearchJob) : IO Json := do
  let seed ← match job.options.seed with
    | some seed => pure seed
    | none => freshSeed
  match job.runs with
  | none =>
    let start ← IO.monoMsNow
    let report ← searchNow job.formula job.options seed
    return job.form.toJson report ((← IO.monoMsNow) - start)
  | some runs =>
    let mut batch := Batch.start seed runs
    for run in [0:runs] do
      let report ← searchNow job.formula job.options (Formula.runSeed seed run)
      batch := batch.add report.outcome
    return batch.toJson

def respondTo (words : List String) : IO Response := do
  match Command.ofWords words with
  | .error error => return .refusal error
  | .ok command =>
    let file ← command.optionsFile?.mapM fun path => return (path, ← readText path)
    match command.prepare file with
    | .respond response => return response
    | .search job => return .success (← job.runNow)

end HatCircle

/-- Prints the response to the command line and ends with its status. -/
def main (words : List String) : IO UInt32 := do
  let response ← HatCircle.respondTo words
  (← IO.getStdout).putStr response.output
  if response.complaint ≠ "" then (← IO.getStderr).putStrLn response.complaint
  return response.status
