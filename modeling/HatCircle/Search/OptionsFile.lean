import HatCircle.Search.Options
import HatCircle.Yaml.Document

/-!
# Options from files

Options are written as a mapping with the keys `budget_ms`, `seed` and
`max_trials`. Each may be missing; the seed and the cap may also stand for nothing.
Other keys are ignored, and a key of the three that stands twice is refused.
-/

namespace HatCircle.Options

/-- The value of a key that stands at most once; nothing where it is missing. -/
def single? (entries : List (Yaml.Scalar × Yaml.Node)) (key : String) :
    Option (Option Yaml.Node) :=
  match entries.filter fun entry => entry.1.text == key with
  | [] => some none
  | [entry] => some (some entry.2)
  | _ => none

def number? (node : Yaml.Node) : Option Nat :=
  node.scalar?.bind (·.number?)

/-- The number of a node that may stand for nothing. -/
def numberOrNull? (node : Yaml.Node) : Option (Option Nat) :=
  node.scalar?.bind (·.numberOrNull?)

def ofEntries? (entries : List (Yaml.Scalar × Yaml.Node)) : Option Options := do
  let budgetMs ← (← single? entries "budget_ms").elim (some 1000) number?
  let seed ← (← single? entries "seed").elim (some none) numberOrNull?
  let maxTrials ← (← single? entries "max_trials").elim (some none) numberOrNull?
  return ⟨budgetMs, seed.map UInt64.ofNat, maxTrials⟩

def ofText (text : String) : Except OptionsError Options :=
  match (Yaml.mapping? text).bind ofEntries? with
  | none => .error .document
  | some options => options.validate

/-- The options of a file, of which either the text or the reason is known why it
cannot be read. -/
def ofFile (path : String) (contents : Except String String) : Except OptionsError Options :=
  match contents with
  | .error reason => .error (.unreadable path reason)
  | .ok text => ofText text

/-- The options that hold in the end: those of the file, if there is one, or else
the defaults, with what the caller asks for in place. The file is checked on its own
and the result once more. -/
def resolve (file : Option (String × Except String String)) (overrides : Overrides) :
    Except OptionsError Options := do
  let options ← match file with
    | none => .ok {}
    | some (path, contents) => ofFile path contents
  (options.override overrides).validate

end HatCircle.Options
