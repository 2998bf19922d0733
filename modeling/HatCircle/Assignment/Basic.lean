import HatCircle.Puzzle.Basic

/-!
# Hat assignments

An assignment gives each person a hat. `Assignment.Fits` says what it means to
belong to a puzzle: one hat for each person, each in a colour of the puzzle.
`Assignment.ofHats` checks just that and names what is wrong otherwise, the number
of hats before their colours.

Assignments are numbered in lexicographic order, the first person being the most
significant place; `Assignment.ofIndex` finds the one of a given number.
-/

namespace HatCircle

/-- One hat for each person, in the order of the circle. -/
structure Assignment where
  hats : List Hat
deriving DecidableEq, Repr

inductive AssignmentError where
  | length (expected found : Nat)
  | range (person : Nat) (hat base : UInt8)
  | numeral (value : String) (fault : Numeral.Fault)
deriving DecidableEq, Repr

def AssignmentError.info : AssignmentError → ErrorInfo
  | .length expected found =>
    ((ErrorInfo.new "assignment-length" "assignment length does not match puzzle").withContext
      "expected" (Numeral.render expected)).withContext "found" (Numeral.render found)
  | .range person hat base =>
    (((ErrorInfo.new "assignment-range" "hat colour outside puzzle base").withContext
      "person" (Numeral.render person)).withContext "hat" (Numeral.render hat.toNat)).withContext
      "base" (Numeral.render base.toNat)
  | .numeral value fault =>
    (ErrorInfo.new "assignment-parse" fault.message).withContext "value" value

def AssignmentError.toError (error : AssignmentError) : Error :=
  ⟨.config, error.info⟩

namespace Assignment

/-- One hat for each person, each in a colour of the puzzle. -/
def Fits (puzzle : Puzzle) (hats : List Hat) : Prop :=
  hats.length = puzzle.personCount ∧ ∀ hat ∈ hats, hat < puzzle.base

instance (puzzle : Puzzle) (hats : List Hat) : Decidable (Fits puzzle hats) :=
  inferInstanceAs (Decidable (_ ∧ _))

/-- The assignment of some hats, if they fit the puzzle. -/
def ofHats (puzzle : Puzzle) (hats : List Hat) : Except AssignmentError Assignment :=
  if hats.length ≠ puzzle.personCount then
    .error (.length puzzle.personCount hats.length)
  else
    match hats.zipIdx.find? fun entry => puzzle.base ≤ entry.1 with
    | some (hat, person) => .error (.range person hat puzzle.base)
    | none => .ok ⟨hats⟩

def hat? (assignment : Assignment) (person : Nat) : Option Hat :=
  assignment.hats[person]?

/-- The digits of a number in a base, put in front of the digits that follow: as
many as asked for, the least significant ones of the number. -/
def placesBefore (base : Nat) (following : List Hat) : Nat → Nat → List Hat
  | 0, _ => following
  | count + 1, index =>
    placesBefore base (UInt8.ofNat (index % base) :: following) count (index / base)

/-- The assignment with a given number in lexicographic order. Numbers beyond the
last assignment start again from the first. -/
def ofIndex (puzzle : Puzzle) (index : Nat) : Assignment :=
  ⟨placesBefore puzzle.base.toNat [] puzzle.personCount index⟩

end Assignment

end HatCircle
