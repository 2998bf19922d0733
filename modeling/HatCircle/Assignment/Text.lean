import HatCircle.Assignment.Basic
import HatCircle.Text.Blank
import HatCircle.Text.Split

/-!
# The text of assignments

Assignments are shown as a list between brackets and read from numerals between
commas. The reader drops blanks around the numerals and parts that are blank
altogether, and reports the first part that is no byte before it looks at the
number of hats or their colours.
-/

namespace HatCircle.Assignment

/-- The parts of a list of hats that hold something, without the blanks around them. -/
def numerals (text : String) : List (List Char) :=
  ((Text.splitAt ',' text.toList).map Text.trim).filter fun part => !part.isEmpty

def readHat (part : List Char) : Except AssignmentError Hat :=
  match Numeral.read 256 part with
  | .ok n => .ok (UInt8.ofNat n)
  | .error fault => .error (.numeral (String.ofList part) fault)

def ofText (puzzle : Puzzle) (text : String) : Except AssignmentError Assignment := do
  ofHats puzzle (← (numerals text).mapM readHat)

/-- The numerals of the hats with commas between them. -/
def listing (assignment : Assignment) : String :=
  ", ".intercalate (assignment.hats.map fun hat => Numeral.render hat.toNat)

def render (assignment : Assignment) : String :=
  "[" ++ assignment.listing ++ "]"

end HatCircle.Assignment
