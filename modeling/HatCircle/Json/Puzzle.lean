import HatCircle.Json.Variant
import HatCircle.Puzzle.Kind

/-!
# Documents of puzzles

How rules, strategies and puzzles are written as documents, and how a rule is read.
-/

namespace HatCircle

def Rule.toJson : Rule → Json
  | .ownIndex => .obj [("rule", .str "own-index")]
  | .sumOfOthers => .obj [("rule", .str "sum-of-others")]
  | .neighbor offset => .obj [("rule", .str "neighbor"), ("offset", .int offset)]

/-- The names of the rules in the order of their numbers. -/
def Rule.names : List String :=
  ["own-index", "sum-of-others", "neighbor"]

/-- The rule of a document, with numbers for some names. Offsets have 64 bits. -/
def Rule.ofNumberedJson? (numbered : List String) (document : Json) : Option Rule :=
  match document.variant? numbered "rule" with
  | some "own-index" => (document.parts? []).map fun _ => .ownIndex
  | some "sum-of-others" => (document.parts? []).map fun _ => .sumOfOthers
  | some "neighbor" =>
    match document.parts? ["offset"] with
    | some [offset] => offset.signed64?.map .neighbor
    | _ => none
  | _ => none

def Rule.ofJson? (document : Json) : Option Rule :=
  Rule.ofNumberedJson? [] document

def Rule.ofInnerJson? (document : Json) : Option Rule :=
  Rule.ofNumberedJson? Rule.names document

def Strategy.name : Strategy → String
  | .exhaustive => "exhaustive"
  | .randomized => "randomized"

def NamedVariable.toJson (entry : NamedVariable) : Json :=
  .obj [("name", .str entry.name), ("rule", entry.rule.toJson)]

def BracketFamily.toJson (family : BracketFamily) : Json :=
  .obj [("prefix", .str (String.ofList [family.letter])), ("direction", .int family.direction)]

def Puzzle.toJson (puzzle : Puzzle) : Json :=
  .obj [("kind", .str puzzle.kind.name), ("person_count", .ofNat puzzle.personCount),
    ("base", .ofNat puzzle.base.toNat), ("variables", .arr (puzzle.vocabulary.map (·.toJson))),
    ("brackets", .arr (puzzle.brackets.map (·.toJson))),
    ("strategy", .str puzzle.strategy.name)]

end HatCircle
