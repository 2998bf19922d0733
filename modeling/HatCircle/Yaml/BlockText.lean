import HatCircle.Yaml.Scalar
import HatCircle.Yaml.Character

/-!
# Block scalars of YAML

A scalar that stands below its header as a block of lines, all indented. A header
says whether the line breaks are kept or the lines joined, how far the block is
indented unless its first line shows that, and what becomes of the breaks behind the
last line.
-/

namespace HatCircle.Yaml

/-- What becomes of the breaks at the end of a block. -/
inductive Chomping where
  | strip
  | clip
  | keep
deriving DecidableEq, Repr

structure BlockHeader where
  chomping : Chomping
  /-- How much further than its parent the block is indented, where it says so. -/
  increment : Option Nat
deriving DecidableEq, Repr

def chomping? : List Char → Option (Chomping × List Char)
  | '+' :: rest => some (.keep, rest)
  | '-' :: rest => some (.strip, rest)
  | _ => none

/-- The digit for the indentation, which must not be zero. Where there is no digit
nothing is read. -/
def increment? : List Char → Option (Option Nat × List Char)
  | [] => some (none, [])
  | c :: rest =>
    if c = '0' then none
    else if c.isDigit then some (some (c.toNat - '0'.toNat), rest)
    else some (none, c :: rest)

/-- The header of a block and what follows it: a sign and a digit, in any order, of
which both may be missing. -/
def blockHeader? (text : List Char) : Option (BlockHeader × List Char) := do
  match chomping? text with
  | some (chomping, rest) =>
    let (increment, rest) ← increment? rest
    return (⟨chomping, increment⟩, rest)
  | none =>
    let (increment, rest) ← increment? text
    match increment, chomping? rest with
    | some _, some (chomping, rest) => return (⟨chomping, increment⟩, rest)
    | _, _ => return (⟨.clip, increment⟩, rest)

/-- The text behind the end of a line on which nothing but blanks and a comment is
left. -/
def restOfLine? (text : List Char) : Option (List Char) :=
  match text.dropWhile isBlank with
  | [] => some []
  | c :: rest =>
    if isBreak c then some rest
    else if c = '#' then some ((rest.dropWhile (!isBreak ·)).drop 1)
    else none

/-- The blank lines in front of a line of a block, and where that line begins. -/
structure BlankLines where
  breaks : List Char
  /-- The number of spaces on the widest line, the last one included. -/
  widest : Nat
  column : Nat
  rest : List Char
deriving DecidableEq, Repr

/-- The blank lines with which a text begins that stands at some column. Spaces count
as indentation up to `indent`, all of them where it is not known; no tab may stand
among them. -/
def blankLines? (indent : Option Nat) (column : Nat) : List Char → Option BlankLines
  | [] => some ⟨[], column, column, []⟩
  | c :: rest =>
    let isIndented := indent.all (column < ·)
    if c = ' ' ∧ isIndented then blankLines? indent (column + 1) rest
    else if c = '\t' ∧ isIndented then none
    else if isBreak c then
      (blankLines? indent 0 rest).map fun lines =>
        { lines with breaks := c :: lines.breaks, widest := max column lines.widest }
    else some ⟨[], column, column, c :: rest⟩

structure BlockLine where
  content : List Char
  ending : List Char
  breaks : List Char
deriving DecidableEq, Repr

/-- The lines of a block that is indented by `indent`, from a place behind blank lines
on, and what follows the block. -/
def blockLines? (indent : Nat) : (limit : Nat) → BlankLines →
    Option (List BlockLine × List Char)
  | 0, _ => none
  | limit + 1, start =>
    if start.column ≠ indent ∨ start.rest = [] then some ([], start.rest)
    else do
      let content := start.rest.takeWhile (!isBreak ·)
      let behind := start.rest.dropWhile (!isBreak ·)
      let next ← blankLines? (some indent) 0 (behind.drop 1)
      let (lines, rest) ← blockLines? indent limit next
      return (⟨content, behind.take 1, next.breaks⟩ :: lines, rest)

def BlockLine.isSpaced (line : BlockLine) : Bool :=
  line.content.head?.any isBlank

/-- What stands between two lines of a block. Two joined lines without a blank in
front have a space between them, or the breaks of the blank lines. -/
def separator (isFolded : Bool) (line next : BlockLine) : List Char :=
  if isFolded && line.ending == ['\n'] && !line.isSpaced && !next.isSpaced then
    if line.breaks.isEmpty then [' '] else line.breaks
  else line.ending ++ line.breaks

def blockContent (isFolded : Bool) (chomping : Chomping) : List BlockLine → List Char
  | [] => []
  | [line] =>
    line.content ++
      match chomping with
      | .strip => []
      | .clip => line.ending
      | .keep => line.ending ++ line.breaks
  | line :: next :: lines =>
    line.content ++ separator isFolded line next ++
      blockContent isFolded chomping (next :: lines)

/-- The text of the block scalar behind its sign, and what follows it. The lines of the
block are indented to `parent` at least. -/
def blockText? (isFolded : Bool) (parent : Nat) (text : List Char) :
    Option (List Char × List Char) := do
  let (header, rest) ← blockHeader? text
  let rest ← restOfLine? rest
  let given := header.increment.map fun increment => (parent - 1) + increment
  let start ← blankLines? given 0 rest
  let indent := given.getD (max (max start.widest parent) 1)
  let (lines, rest) ← blockLines? indent (rest.length + 1) start
  let leading :=
    if lines.isEmpty && header.chomping != .keep then [] else start.breaks
  return (leading ++ blockContent isFolded header.chomping lines, rest)

end HatCircle.Yaml
