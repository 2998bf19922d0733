/-!
# Characters of YAML

Which characters a document may hold, which of them separate, and how the marks
between documents look. The spellings of a line break are made one before anything
else is read; two rarer separators of lines remain beside it.
-/

namespace HatCircle.Yaml

/-- May the character stand in a document? Control characters may not, apart from
the tab and the line breaks. -/
def isPrintable (c : Char) : Bool :=
  let n := c.toNat
  n == 0x09 || n == 0x0A || n == 0x0D || (0x20 ≤ n && n ≤ 0x7E) || n == 0x85 ||
    (0xA0 ≤ n && n ≤ 0xFFFD) || 0x10000 ≤ n

/-- The characters that separate on a line: the space and the tab. -/
def isBlank (c : Char) : Bool :=
  c == ' ' || c == '\t'

def isBreak (c : Char) : Bool :=
  c == '\n' || c == '\u2028' || c == '\u2029'

def isSpace (c : Char) : Bool :=
  isBlank c || isBreak c

def isNameChar (c : Char) : Bool :=
  c.isAlphanum || c == '_' || c == '-'

/-- The text with one line feed for each spelling of a line break. -/
def unifyBreaks : List Char → List Char
  | [] => []
  | '\r' :: '\n' :: rest => '\n' :: unifyBreaks rest
  | c :: rest => (if c = '\r' ∨ c = '\x85' then '\n' else c) :: unifyBreaks rest

/-- Does the text begin with a separator or not at all? -/
def startsSpaced : List Char → Bool
  | [] => true
  | c :: _ => isSpace c

/-- Does the text begin with three times the given character, and nothing or a
separator behind it? -/
def startsMark (c : Char) (text : List Char) : Bool :=
  [c, c, c].isPrefixOf text && startsSpaced (text.drop 3)

/-- Does the text begin with the mark that begins or the mark that ends a document? -/
def startsDocumentMark (text : List Char) : Bool :=
  startsMark '-' text || startsMark '.' text

end HatCircle.Yaml
