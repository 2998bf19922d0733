import HatCircle.Yaml.Plain
import HatCircle.Yaml.Tag

/-!
# Layout of YAML documents

What has to be remembered of a document on the way through it: the place, the tokens
so far, the blocks and the brackets that are open, and where a key may have begun.

Nothing marks a key except the colon behind it. So the lexer notes where one could
begin, and when it meets the colon it puts the token of the key, and if need be the
beginning of its mapping, in front of the tokens since then. A key has to stay on
its line and within 1024 characters. Something at the indent of a mapping has to be
a key.
-/

namespace HatCircle.Yaml

structure Place where
  line : Nat
  column : Nat
deriving DecidableEq, Repr

def Place.behind (place : Place) (c : Char) : Place :=
  if isBreak c then ⟨place.line + 1, 0⟩ else { place with column := place.column + 1 }

structure Candidate where
  place : Place
  position : Nat
  isRequired : Bool
deriving DecidableEq, Repr

/-- Can the colon of a key that began at the candidate still follow at a place? -/
def Candidate.reaches (candidate : Candidate) (place : Place) : Bool :=
  candidate.place.line == place.line && place.column ≤ candidate.place.column + 1024

/-- The candidate without those that can be no key, at a place; nothing if it had to
be one. -/
def Candidate.kept? (place : Place) : Option Candidate → Option (Option Candidate)
  | none => some none
  | some candidate =>
    if candidate.reaches place then some (some candidate)
    else if candidate.isRequired then none
    else some none

structure Layout where
  place : Place := ⟨0, 0⟩
  rest : List Char
  tokens : List Token := []
  indents : List Nat := []
  /-- The last place where a key may have begun, in the innermost brackets. -/
  candidate : Option Candidate := none
  /-- The same for the brackets around them: one for each open bracket. -/
  outer : List (Option Candidate) := []
  keyAllowed : Bool := true
deriving DecidableEq, Repr

namespace Layout

def inFlow (layout : Layout) : Bool :=
  !layout.outer.isEmpty

/-- The least column of what belongs to the innermost block. -/
def contentColumn (layout : Layout) : Nat :=
  match layout.indents with
  | [] => 0
  | indent :: _ => indent + 1

def moveTo (rest : List Char) (layout : Layout) : Layout :=
  let passed := layout.rest.take (layout.rest.length - rest.length)
  { layout with place := passed.foldl Place.behind layout.place, rest }

def push (token : Token) (layout : Layout) : Layout :=
  { layout with tokens := layout.tokens ++ [token] }

def allow (keyAllowed : Bool) (layout : Layout) : Layout :=
  { layout with keyAllowed }

/-- The layout without the candidates that are out of reach. -/
def refresh? (layout : Layout) : Option Layout := do
  let candidate ← Candidate.kept? layout.place layout.candidate
  let outer ← layout.outer.mapM (Candidate.kept? layout.place)
  return { layout with candidate, outer }

/-- The layout without its candidate, unless that has to be a key. -/
def forget? (layout : Layout) : Option Layout :=
  if layout.candidate.any (·.isRequired) then none else some { layout with candidate := none }

/-- The layout with its place as the candidate, where a key may begin. -/
def propose? (layout : Layout) : Option Layout :=
  if layout.keyAllowed then do
    let isRequired := !layout.inFlow && layout.indents.head? == some layout.place.column
    let layout ← layout.forget?
    return { layout with
      candidate := some ⟨layout.place, layout.tokens.length, isRequired⟩ }
  else some layout

/-- The layout with a block at a column, unless one is open there already. Its
beginning becomes the token at a position. -/
def openBlock (shape : Shape) (column position : Nat) (layout : Layout) : Layout :=
  if layout.inFlow || layout.indents.head?.any (column ≤ ·) then layout
  else
    { layout with
      indents := column :: layout.indents
      tokens := layout.tokens.insertIdx position (.blockStart shape) }

/-- The layout with a block at its place, in front of which nothing but the
indentation, dashes and marks may stand. -/
def openBlockHere? (shape : Shape) (layout : Layout) : Option Layout :=
  if layout.inFlow then some layout
  else if layout.keyAllowed then
    some (layout.openBlock shape layout.place.column layout.tokens.length)
  else none

/-- The layout without the open blocks that are indented further than a column, or
without any where no column is given. Brackets keep the blocks around them open. -/
def closeBlocks (column : Option Nat) (layout : Layout) : Layout :=
  if layout.inFlow then layout
  else
    let isClosed (indent : Nat) := column.all (· < indent)
    let closed := layout.indents.takeWhile isClosed
    { layout with
      indents := layout.indents.dropWhile isClosed
      tokens := layout.tokens ++ closed.map fun _ => .blockEnd }

end Layout

end HatCircle.Yaml
