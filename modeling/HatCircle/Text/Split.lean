/-!
# Parts of a text

A text cut at each occurrence of a separator. There is one part more than there
are separators, and parts may be empty.
-/

namespace HatCircle.Text

/-- The parts of a text between the occurrences of a separator. -/
def splitAt (separator : Char) : List Char → List (List Char)
  | [] => [[]]
  | c :: rest =>
    if c = separator then [] :: splitAt separator rest
    else
      match splitAt separator rest with
      | [] => [[c]]
      | part :: parts => (c :: part) :: parts

end HatCircle.Text
