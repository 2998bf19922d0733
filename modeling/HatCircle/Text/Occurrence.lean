/-!
# Occurrences of a word in a text

Whether a word occurs in a text, and the text that is left when its
occurrences are cut out from left to right without overlap.
-/

namespace HatCircle.Text

/-- Does `word` occur in the text, as a run of neighbouring characters? -/
def occursIn (word : List Char) : List Char → Bool
  | [] => word.isEmpty
  | c :: rest => word.isPrefixOf (c :: rest) || occursIn word rest

/-- Cuts the occurrences of `word` out of the text: the leftmost one first, then
the leftmost one in what follows it. What the cuts bring together is not looked
at again. -/
def cutOut (word : List Char) : List Char → List Char
  | [] => []
  | c :: rest =>
    if word.isPrefixOf (c :: rest) then cutOut word (rest.drop (word.length - 1))
    else c :: cutOut word rest
termination_by text => text.length
decreasing_by all_goals (simp only [List.length_drop, List.length_cons]; omega)

end HatCircle.Text
