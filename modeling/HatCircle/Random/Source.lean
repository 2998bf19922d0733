import HatCircle.Assignment.Basic

/-!
# Drawing from random words

A source of random words yields one 32-bit word after the other. A colour is drawn
from it by multiplication: the word times the number of colours has the colour in
its upper half, and its lower half decides whether the word counts. Words beyond
the last full round of the lower halves would favour some colours, so they are
passed over and the next word is tried. The number of words that may be tried is
an argument; a draw that uses them up gives nothing.

An infinite sequence of words is itself a source, for statements about every
source.
-/

namespace HatCircle

class WordSource (σ : Type) where
  next : σ → UInt32 × σ

/-- A sequence of words as a source: its first word is the next one. -/
instance : WordSource (Nat → UInt32) where
  next words := (words 0, fun n => words (n + 1))

namespace WordSource

variable {σ : Type} [WordSource σ]

/-- The greatest lower half that counts for a number of colours. -/
def zone (base : Nat) : Nat :=
  UInt32.size - 1 - (UInt32.size - base) % base

/-- The colour that a word draws, if the word counts. -/
def pick? (base : Nat) (word : UInt32) : Option Hat :=
  let product := word.toNat * base
  if product % UInt32.size ≤ zone base then some (UInt8.ofNat (product / UInt32.size)) else none

/-- Draws a colour, trying at most `attempts` words. -/
def drawHat (base : Nat) : Nat → σ → Option (Hat × σ)
  | 0, _ => none
  | attempts + 1, source =>
    let (word, source) := next source
    match pick? base word with
    | some hat => some (hat, source)
    | none => drawHat base attempts source

/-- Draws a hat for each of `count` people, the first person first. -/
def drawHats (attempts base : Nat) : Nat → σ → Option (List Hat × σ)
  | 0, source => some ([], source)
  | count + 1, source => do
    let (hat, source) ← drawHat base attempts source
    let (hats, source) ← drawHats attempts base count source
    return (hat :: hats, source)

def drawAssignment (attempts : Nat) (puzzle : Puzzle) (source : σ) : Option (Assignment × σ) :=
  (drawHats attempts puzzle.base.toNat puzzle.personCount source).map fun drawn =>
    (⟨drawn.1⟩, drawn.2)

end WordSource

end HatCircle
