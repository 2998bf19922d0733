import HatCircle.Yaml.Quoted

/-!
# Plain scalars of YAML

Scalars without quotes. One goes on up to a colon with a separator behind it, up to
a comment, up to a line that is not indented enough or begins with a mark between
documents, and inside brackets also up to a bracket or a comma.
-/

namespace HatCircle.Yaml

/-- The characters that structure collections in brackets, colons apart. -/
def flowIndicators : List Char :=
  [',', '[', ']', '\x7b', '\x7d']

structure PlainText where
  text : List Char
  /-- Does a line break stand between the scalar and what follows it? -/
  brokeOff : Bool
  rest : List Char
deriving DecidableEq, Repr

/-- Does a plain scalar end in front of a text that stands behind a gap? -/
def endsPlain (inFlow : Bool) (indent : Nat) (gap : Gap) (text : List Char) : Bool :=
  (gap.endsLine && startsDocumentMark text) ||
    (!gap.spaces.isEmpty && text.head? == some '#') ||
    (!inFlow && gap.isBroken && decide (gap.indent < indent)) ||
    (text.head? == some ':' && startsSpaced text.tail) ||
    (inFlow && text.head?.any flowIndicators.contains)

/-- Is the text a colon that may neither end a plain scalar nor be part of it? Such is
one inside brackets right before an indicator or a question mark. -/
def isMisplacedColon (inFlow : Bool) (text : List Char) : Bool :=
  inFlow && text.head? == some ':' && text.tail.head?.any ('?' :: flowIndicators).contains

/-- The rest of a plain scalar behind a gap. No tab may stand to the left of `indent`
on the lines of the scalar after the first one. -/
def plainText? (inFlow : Bool) (indent : Nat) (gap : Gap) : List Char → Option PlainText
  | [] => some ⟨[], gap.isBroken, []⟩
  | c :: rest =>
    if isSpace c then
      if c = '\t' ∧ gap.isBroken ∧ gap.indent < indent then none
      else plainText? inFlow indent (gap.push c) rest
    else if isMisplacedColon inFlow (c :: rest) then none
    else if endsPlain inFlow indent gap (c :: rest) then some ⟨[], gap.isBroken, c :: rest⟩
    else
      (plainText? inFlow indent {} rest).map fun plain =>
        { plain with text := gap.fold ++ c :: plain.text }

end HatCircle.Yaml
