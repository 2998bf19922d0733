import HatCircle.Yaml.Gap
import HatCircle.Yaml.Scalar

/-!
# Quoted scalars of YAML

Between single quotes two quotes stand for one. Between double quotes a backslash
and a letter stand for one character, and a backslash at the end of a line joins it
with the next one. The readers take the text behind the opening quote and answer
with the value and with what follows the closing quote. A mark between documents
may not begin a line of the scalar.
-/

namespace HatCircle.Yaml

def prepend (front : List Char) (read : Option (List Char × List Char)) :
    Option (List Char × List Char) :=
  read.map fun r => (front ++ r.1, r.2)

def singleQuoted (gap : Gap) : List Char → Option (List Char × List Char)
  | [] => none
  | '\'' :: '\'' :: rest => prepend (gap.fold ++ ['\'']) (singleQuoted {} rest)
  | '\'' :: rest => some (gap.fold, rest)
  | c :: rest =>
    if isSpace c then singleQuoted (gap.push c) rest
    else if gap.endsLine && startsDocumentMark (c :: rest) then none
    else prepend (gap.fold ++ [c]) (singleQuoted {} rest)

/-- The character that a letter stands for behind a backslash. -/
def escaped? (c : Char) : Option Char :=
  [('0', '\x00'), ('a', '\x07'), ('b', '\x08'), ('t', '\t'), ('n', '\n'), ('v', '\x0b'),
    ('f', '\x0c'), ('r', '\r'), ('e', '\x1b'), (' ', ' '), ('"', '"'), ('/', '/'),
    ('\\', '\\'), ('\t', '\t'), ('N', '\x85'), ('_', '\xa0'), ('L', '\u2028'),
    ('P', '\u2029')].lookup c

/-- The character that hexadecimal digits stand for. -/
def coded? (digits : List Char) : Option Char := do
  let code ← numberIn? 16 digits
  if code.isValidChar then some (Char.ofNat code) else none

/-- The value between double quotes, behind a gap. The letters `x`, `u` and `U` take
two, four and eight digits along. -/
def doubleQuoted (gap : Gap) : List Char → Option (List Char × List Char)
  | [] => none
  | '"' :: rest => some (gap.fold, rest)
  | '\\' :: 'x' :: a :: b :: rest => do
    let e ← coded? [a, b]
    prepend (gap.fold ++ [e]) (doubleQuoted {} rest)
  | '\\' :: 'u' :: a :: b :: c :: d :: rest => do
    let e ← coded? [a, b, c, d]
    prepend (gap.fold ++ [e]) (doubleQuoted {} rest)
  | '\\' :: 'U' :: a :: b :: c :: d :: i :: j :: k :: l :: rest => do
    let e ← coded? [a, b, c, d, i, j, k, l]
    prepend (gap.fold ++ [e]) (doubleQuoted {} rest)
  | '\\' :: c :: rest =>
    if isBreak c then prepend gap.fold (doubleQuoted .escapedBreak rest)
    else do
      let e ← escaped? c
      prepend (gap.fold ++ [e]) (doubleQuoted {} rest)
  | c :: rest =>
    if isSpace c then doubleQuoted (gap.push c) rest
    else if gap.endsLine && startsDocumentMark (c :: rest) then none
    else prepend (gap.fold ++ [c]) (doubleQuoted {} rest)

end HatCircle.Yaml
