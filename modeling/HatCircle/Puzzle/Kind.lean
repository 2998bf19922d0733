import HatCircle.Puzzle.Basic
import HatCircle.Text.Blank

/-!
# Names of the built-in puzzles

A variant is named by its number of people, in letters or in digits, with any
blanks around the name and without regard to ASCII case.
-/

namespace HatCircle.PuzzleKind

def puzzle : PuzzleKind → Puzzle
  | .ten => .ten
  | .two => .two

def name : PuzzleKind → String
  | .ten => "ten"
  | .two => "two"

structure Unknown where
  value : String
deriving DecidableEq, Repr

def Unknown.toError (unknown : Unknown) : Error :=
  ⟨.config, (((ErrorInfo.new "unknown-puzzle" "unknown puzzle variant").withContext
    "value" unknown.value).withHint "expected `ten` or `two`")⟩

/-- The form in which names are compared: trimmed, ASCII letters in lower case. -/
def normalName (text : String) : String :=
  String.ofList ((Text.trim text.toList).map Char.toLower)

def ofText (text : String) : Except Unknown PuzzleKind :=
  let name := normalName text
  if name = "ten" ∨ name = "10" then .ok .ten
  else if name = "two" ∨ name = "2" then .ok .two
  else .error ⟨name⟩

end HatCircle.PuzzleKind
