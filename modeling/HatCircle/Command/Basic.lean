import HatCircle.Command.Words
import HatCircle.Puzzle.Kind
import HatCircle.Search.Options
import HatCircle.Text.Numeral

/-!
# Commands

A command works on one formula. The puzzle is that of ten people unless another one
is named. Numbers are decimal numerals that 64 bits hold.
-/

namespace HatCircle

inductive ReportForm where
  | full
  | wire
deriving DecidableEq, Repr

structure SearchRequest where
  puzzle : PuzzleKind
  formula : String
  optionsFile : Option String
  overrides : Overrides
  runs : Option Nat
  form : ReportForm
deriving DecidableEq, Repr

inductive Command where
  | validate (puzzle : PuzzleKind) (formula : String)
  | tokens (puzzle : PuzzleKind) (formula : String)
  | guess (puzzle : PuzzleKind) (formula hats : String) (person : Nat)
  | score (puzzle : PuzzleKind) (formula hats : String)
  | search (request : SearchRequest)
deriving DecidableEq, Repr

namespace Arguments

def formula (arguments : Arguments) : Except UsageError String :=
  match arguments.operands with
  | [] => .error (.missing "a formula")
  | [text] => .ok text
  | _ :: extra :: _ => .error (.unexpected extra)

def value (arguments : Arguments) (option : String) : Except UsageError String :=
  match arguments.value? option with
  | none => .error (.missing ("--" ++ option))
  | some value => .ok value

def numberOf (option value : String) : Except UsageError Nat :=
  match Numeral.read UInt64.size value.toList with
  | .ok n => .ok n
  | .error _ => .error (.invalidValue option value)

def number (arguments : Arguments) (option : String) : Except UsageError Nat := do
  numberOf option (← arguments.value option)

def number? (arguments : Arguments) (option : String) : Except UsageError (Option Nat) :=
  (arguments.value? option).mapM (numberOf option)

def path? (arguments : Arguments) (option : String) : Except UsageError (Option String) :=
  (arguments.value? option).mapM fun path =>
    if path = "" then .error (.invalidValue option path) else .ok path

def puzzle (arguments : Arguments) : Except UsageError PuzzleKind :=
  let name := (arguments.value? "puzzle").getD "ten"
  (PuzzleKind.ofText name).mapError fun _ => .invalidValue "puzzle" name

/-- What stands on the command line for options that a file may also give. -/
def overrides (arguments : Arguments) : Except UsageError Overrides := do
  return ⟨← arguments.number? "budget-ms", (← arguments.number? "seed").map UInt64.ofNat,
    ← arguments.number? "max-trials"⟩

def searchRequest (arguments : Arguments) : Except UsageError SearchRequest := do
  return ⟨← arguments.puzzle, ← arguments.formula, ← arguments.path? "config",
    ← arguments.overrides, ← arguments.number? "runs",
    if "wire" ∈ arguments.flags then .wire else .full⟩

end Arguments

namespace Command

def searchGrammar : Grammar :=
  ⟨["puzzle", "config", "budget-ms", "seed", "max-trials", "runs"], ["wire"]⟩

def named (name : String) (words : List String) : Except UsageError Command :=
  match name with
  | "validate" => do
    let arguments ← Arguments.read ⟨["puzzle"], []⟩ words
    return .validate (← arguments.puzzle) (← arguments.formula)
  | "tokens" => do
    let arguments ← Arguments.read ⟨["puzzle"], []⟩ words
    return .tokens (← arguments.puzzle) (← arguments.formula)
  | "guess" => do
    let arguments ← Arguments.read ⟨["hats", "person", "puzzle"], []⟩ words
    return .guess (← arguments.puzzle) (← arguments.formula) (← arguments.value "hats")
      (← arguments.number "person")
  | "score" => do
    let arguments ← Arguments.read ⟨["hats", "puzzle"], []⟩ words
    return .score (← arguments.puzzle) (← arguments.formula) (← arguments.value "hats")
  | "search" => do
    return .search (← (← Arguments.read searchGrammar words).searchRequest)
  | _ => .error (.unknownCommand name)

def ofWords : List String → Except UsageError Command
  | [] => .error .noCommand
  | name :: words => named name words

def optionsFile? : Command → Option String
  | .search request => request.optionsFile
  | _ => none

end Command

end HatCircle
