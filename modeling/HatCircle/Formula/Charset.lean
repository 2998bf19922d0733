import HatCircle.Formula.Token
import HatCircle.Formula.Rejection
import HatCircle.Text.Occurrence

/-!
# Characters of formulas

A formula holds only characters of its puzzle. Names of more than one byte, the
words, are cut out of the text first, one after the other; each character that is
left must then be allowed on its own. Those that are not are reported once each,
in the order in which they first appear.
-/

namespace HatCircle

/-- The names of more than one byte, in table order. A single letter outside ASCII
is such a name too. -/
def Puzzle.words (puzzle : Puzzle) : List (List Char) :=
  ((puzzle.vocabulary.map (·.name)).filter fun name => 1 < name.utf8ByteSize).map String.toList

/-- May the character stand in a formula on its own? -/
def Puzzle.allows (puzzle : Puzzle) (c : Char) : Bool :=
  puzzle.allowsDigit c || c == '(' || c == ')' || isOperator c ||
    (!puzzle.brackets.isEmpty && (c == '[' || c == ']' || puzzle.isBracketLetter c)) ||
    puzzle.vocabulary.any fun v => v.name.toList == [c]

/-- The text with the words of the puzzle cut out, one word after the other. -/
def Puzzle.withoutWords (puzzle : Puzzle) (text : List Char) : List Char :=
  puzzle.words.foldl (fun remaining word => Text.cutOut word remaining) text

/-- The characters that no formula of the puzzle holds, each once. -/
def Puzzle.strangers (puzzle : Puzzle) (text : List Char) : List Char :=
  ((puzzle.withoutWords text).filter fun c => !puzzle.allows c).eraseDups

def checkCharset (puzzle : Puzzle) (text : List Char) : Except Rejection Unit :=
  match puzzle.strangers text with
  | [] => .ok ()
  | strangers => .error (.invalidCharacters (String.ofList strangers))

end HatCircle
