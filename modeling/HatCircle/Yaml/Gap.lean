import HatCircle.Yaml.Character

/-!
# Gaps in scalars

What separates two runs of characters of a scalar that may go on over several
lines. A gap without a line break is kept as it is. In a gap with line breaks the
blanks are dropped: one break becomes a space and of several the first is dropped.
-/

namespace HatCircle.Yaml

structure Gap where
  spaces : List Char := []
  /-- Does a break that was escaped, and counts for nothing, stand in front of them? -/
  escaped : Bool := false
deriving DecidableEq, Repr

namespace Gap

def push (c : Char) (gap : Gap) : Gap :=
  { gap with spaces := c :: gap.spaces }

def escapedBreak : Gap :=
  ⟨[], true⟩

def isBroken (gap : Gap) : Bool :=
  gap.escaped || gap.spaces.any isBreak

/-- The number of blanks behind the last line break of the gap. -/
def indent (gap : Gap) : Nat :=
  (gap.spaces.takeWhile isBlank).length

/-- Does what follows the gap stand at the beginning of a line? -/
def endsLine (gap : Gap) : Bool :=
  gap.isBroken && gap.indent == 0

def fold (gap : Gap) : List Char :=
  let breaks := (gap.spaces.filter isBreak).reverse
  if gap.escaped then breaks
  else
    match breaks with
    | [] => gap.spaces.reverse
    | ['\n'] => [' ']
    | '\n' :: more => more
    | breaks => breaks

end Gap

end HatCircle.Yaml
