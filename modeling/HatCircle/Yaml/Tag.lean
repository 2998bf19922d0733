import HatCircle.Yaml.BlockText
import HatCircle.Yaml.Token

/-!
# Names, tags and directives of YAML

The tokens that say something about a node or about a whole document. Tags are
addresses: they may hold octets as hexadecimal digits behind a percent sign, as
long as the octets are laid out as in UTF-8, and each then counts as the character of
its number.
-/

namespace HatCircle.Yaml

/-- The characters of addresses, apart from the percent sign. Commas and square
brackets belong to them only where no collection in brackets can be meant. -/
def isAddressChar (verbatim : Bool) (c : Char) : Bool :=
  isNameChar c ||
    [';', '/', '?', ':', '@', '&', '=', '+', '$', '.', '!', '~', '*', '\'', '(', ')'].contains c ||
    (verbatim && [',', '[', ']'].contains c)

/-- The number of octets that follow the first octet of a character. -/
def octetsBehind? (octet : Nat) : Option Nat :=
  if octet < 0x80 then some 0
  else if octet < 0xC0 then none
  else if octet < 0xE0 then some 1
  else if octet < 0xF0 then some 2
  else if octet < 0xF8 then some 3
  else none

/-- How many octets are still to follow behind an octet in front of which `pending`
ones were. -/
def pendingBehind? (pending octet : Nat) : Option Nat :=
  if pending = 0 then octetsBehind? octet
  else if 0x80 ≤ octet ∧ octet < 0xC0 then some (pending - 1)
  else none

/-- The address with which a text begins, and what follows it. A character of which
`pending` octets are still to follow goes on first. -/
def address? (verbatim : Bool) (pending : Nat) : List Char → Option (List Char × List Char)
  | [] => if pending = 0 then some ([], []) else none
  | '%' :: a :: b :: rest => do
    let octet ← numberIn? 16 [a, b]
    let pending ← pendingBehind? pending octet
    let (address, rest) ← address? verbatim pending rest
    return (Char.ofNat octet :: address, rest)
  | c :: rest =>
    if pending ≠ 0 ∨ c = '%' then none
    else if isAddressChar verbatim c then
      (address? verbatim 0 rest).map fun r => (c :: r.1, r.2)
    else some ([], c :: rest)

/-- The address with which a text begins, if there is one, and what follows it. -/
def someAddress? (verbatim : Bool) (text : List Char) : Option (List Char × List Char) :=
  (address? verbatim 0 text).filter fun r => !r.1.isEmpty

/-- The handle and the suffix of the tag behind an exclamation mark, and what follows
it: an address in angle brackets, a handle between exclamation marks with an address,
or an address alone. A lone exclamation mark is a tag of its own. -/
def tagParts? (text : List Char) : Option ((List Char × List Char) × List Char) :=
  match text with
  | '<' :: rest => do
    let (address, rest) ← someAddress? true rest
    match rest with
    | '>' :: rest => some (([], address), rest)
    | _ => none
  | text =>
    let name := text.takeWhile isNameChar
    match text.dropWhile isNameChar with
    | '!' :: rest => do
      let (suffix, rest) ← someAddress? false rest
      return (('!' :: name ++ ['!'], suffix), rest)
    | rest => do
      let (more, rest) ← address? false 0 rest
      let suffix := name ++ more
      return (if suffix.isEmpty then ([], ['!']) else (['!'], suffix), rest)

/-- The tag behind an exclamation mark, and what follows it: a separator or, inside
brackets, perhaps a comma. -/
def tag? (inFlow : Bool) (text : List Char) : Option (Token × List Char) := do
  let ((handle, suffix), rest) ← tagParts? text
  if startsSpaced rest || (inFlow && rest.head? == some ',') then
    return (.tag (String.ofList handle) (String.ofList suffix), rest)
  else none

/-- The name behind the sign of an anchor or an alias, and what follows it: a separator
or one of some signs. -/
def nodeName? (text : List Char) : Option (String × List Char) :=
  let name := text.takeWhile isNameChar
  let rest := text.dropWhile isNameChar
  let isOver := startsSpaced rest ||
    rest.head?.any ['?', ':', ',', ']', '\x7d', '%', '@', '\x60'].contains
  if name.isEmpty || !isOver then none else some (String.ofList name, rest)

/-- The number of at most nine digits with which a text begins, and what follows it. -/
def versionNumber? (text : List Char) : Option (Nat × List Char) := do
  let digits := text.takeWhile Char.isDigit
  if 9 < digits.length then none
  let number ← numberIn? 10 digits
  return (number, text.dropWhile Char.isDigit)

/-- The version behind its directive's name, and what follows it. -/
def version? (text : List Char) : Option (Token × List Char) := do
  let (major, rest) ← versionNumber? (text.dropWhile isBlank)
  match rest with
  | '.' :: rest =>
    let (minor, rest) ← versionNumber? rest
    return (.version major minor, rest)
  | _ => none

/-- The handle behind its directive's name with what it stands for, and what follows. -/
def handle? (text : List Char) : Option (Token × List Char) :=
  match text.dropWhile isBlank with
  | '!' :: rest => do
    let name := rest.takeWhile isNameChar
    let (handle, rest) ← match rest.dropWhile isNameChar with
      | '!' :: rest => some ('!' :: name ++ ['!'], rest)
      | rest => if name.isEmpty then some (['!'], rest) else none
    if !rest.head?.any isBlank then none
    let (meaning, rest) ← someAddress? true (rest.dropWhile isBlank)
    if !startsSpaced rest then none
    return (.handle (String.ofList handle) (String.ofList meaning), rest)
  | _ => none

/-- The directive behind a percent sign, and what follows its line. -/
def directive? (text : List Char) : Option (Token × List Char) := do
  let name := String.ofList (text.takeWhile isNameChar)
  let rest := text.dropWhile isNameChar
  if !startsSpaced rest then none
  let (token, rest) ← match name with
    | "YAML" => version? rest
    | "TAG" => handle? rest
    | _ => none
  return (token, ← restOfLine? rest)

end HatCircle.Yaml
