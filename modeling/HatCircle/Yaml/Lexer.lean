import HatCircle.Yaml.Layout

/-!
# The lexer of YAML

One token after the other, up to the end of the text. Each function takes the layout
in front of a token and the text behind the token's first character, and answers
with the layout behind the token.
-/

namespace HatCircle.Yaml

/-- How far a line between two tokens has been read. -/
inductive LinePart where
  | start
  | spaces
  | comment
deriving DecidableEq, Repr

/-- The text behind separators and comments, and whether a key may begin there. On a
line where a key may begin no tab is skipped; outside brackets a key may begin on each
new line. A byte order mark may stand first on a line. -/
def skipSpaces (inFlow : Bool) : (keyAllowed : Bool) → LinePart → List Char → Bool × List Char
  | keyAllowed, _, [] => (keyAllowed, [])
  | keyAllowed, part, c :: rest =>
    if isBreak c then skipSpaces inFlow (keyAllowed || !inFlow) .start rest
    else if part = .comment ∨ c = '#' then skipSpaces inFlow keyAllowed .comment rest
    else if c = ' ' ∨ (c = '\t' ∧ (inFlow ∨ !keyAllowed)) ∨ (c = '\uFEFF' ∧ part = .start) then
      skipSpaces inFlow keyAllowed .spaces rest
    else (keyAllowed, c :: rest)

namespace Layout

def skip (layout : Layout) : Layout :=
  let part := if layout.place.column = 0 then LinePart.start else .spaces
  let (keyAllowed, rest) := skipSpaces layout.inFlow layout.keyAllowed part layout.rest
  (layout.allow keyAllowed).moveTo rest

def takeDirective? (rest : List Char) (layout : Layout) : Option Layout := do
  let layout ← (layout.closeBlocks none).forget?
  let (token, rest) ← directive? rest
  return ((layout.allow false).push token).moveTo rest

def takeMark? (token : Token) (rest : List Char) (layout : Layout) : Option Layout := do
  let layout ← (layout.closeBlocks none).forget?
  return ((layout.allow false).push token).moveTo (rest.drop 2)

def takeOpening? (shape : Shape) (rest : List Char) (layout : Layout) : Option Layout := do
  let layout ← layout.propose?
  let inner := { layout with candidate := none, outer := layout.candidate :: layout.outer }
  return ((inner.allow true).push (.opening shape)).moveTo rest

/-- Behind a closing bracket, which may stand where none is open. -/
def takeClosing? (shape : Shape) (rest : List Char) (layout : Layout) : Option Layout := do
  let layout ← layout.forget?
  let layout := match layout.outer with
    | [] => layout
    | candidate :: outer => { layout with candidate, outer }
  return ((layout.allow false).push (.closing shape)).moveTo rest

def takeComma? (rest : List Char) (layout : Layout) : Option Layout := do
  let layout ← layout.forget?
  return ((layout.allow true).push .comma).moveTo rest

def takeDash? (rest : List Char) (layout : Layout) : Option Layout := do
  let layout ← (← layout.openBlockHere? .list).forget?
  return ((layout.allow true).push .dash).moveTo rest

def takeKey? (rest : List Char) (layout : Layout) : Option Layout := do
  let layout ← (← layout.openBlockHere? .mapping).forget?
  return ((layout.allow !layout.inFlow).push .key).moveTo rest

/-- Behind the colon of a value. The key is what stands between the candidate and the
colon, or else what follows a question mark. -/
def takeValue? (rest : List Char) (layout : Layout) : Option Layout := do
  let layout ← match layout.candidate with
    | some candidate =>
      let keyed := { layout with
        tokens := layout.tokens.insertIdx candidate.position .key
        candidate := none }
      some ((keyed.openBlock .mapping candidate.place.column candidate.position).allow false)
    | none => do
      let layout ← layout.openBlockHere? .mapping
      some (layout.allow !layout.inFlow)
  return (layout.push .value).moveTo rest

/-- Behind a token that may be a key or belong to one. -/
def takeNode? (token : Token) (rest : List Char) (layout : Layout) : Option Layout := do
  let layout ← layout.propose?
  return ((layout.allow false).push token).moveTo rest

def takeBlock? (isFolded : Bool) (rest : List Char) (layout : Layout) : Option Layout := do
  let layout ← layout.forget?
  let (text, rest) ← blockText? isFolded layout.contentColumn rest
  let style := if isFolded then Style.folded else .literal
  return ((layout.allow true).push (.scalar style (String.ofList text))).moveTo rest

/-- Behind a plain scalar, which has no sign in front. A key may begin behind it if a
new line does. -/
def takePlain? (layout : Layout) : Option Layout := do
  let layout ← layout.propose?
  let plain ← plainText? layout.inFlow layout.contentColumn {} layout.rest
  let token := Token.scalar .plain (String.ofList plain.text)
  return ((layout.allow plain.brokeOff).push token).moveTo plain.rest

def reserved : List Char :=
  flowIndicators ++ ['#', '&', '*', '!', '|', '>', '\'', '"', '%', '@', '\x60']

def take? (c : Char) (rest : List Char) (layout : Layout) : Option Layout :=
  let isFirst := layout.place.column == 0
  let isSign := startsSpaced rest
  let isFlowSign := layout.inFlow || isSign
  if isFirst && c == '%' then layout.takeDirective? rest
  else if isFirst && startsMark '-' (c :: rest) then layout.takeMark? .documentStart rest
  else if isFirst && startsMark '.' (c :: rest) then layout.takeMark? .documentEnd rest
  else if c = '[' then layout.takeOpening? .list rest
  else if c = '\x7b' then layout.takeOpening? .mapping rest
  else if c = ']' then layout.takeClosing? .list rest
  else if c = '\x7d' then layout.takeClosing? .mapping rest
  else if c = ',' then layout.takeComma? rest
  else if c = '-' ∧ isSign then layout.takeDash? rest
  else if c = '?' ∧ isFlowSign then layout.takeKey? rest
  else if c = ':' ∧ isFlowSign then layout.takeValue? rest
  else if c = '*' then do
    let (name, rest) ← nodeName? rest
    layout.takeNode? (.alias name) rest
  else if c = '&' then do
    let (name, rest) ← nodeName? rest
    layout.takeNode? (.anchor name) rest
  else if c = '!' then do
    let (token, rest) ← tag? layout.inFlow rest
    layout.takeNode? token rest
  else if c = '|' ∧ !layout.inFlow then layout.takeBlock? false rest
  else if c = '>' ∧ !layout.inFlow then layout.takeBlock? true rest
  else if c = '\'' then do
    let (text, rest) ← singleQuoted {} rest
    layout.takeNode? (.scalar .single (String.ofList text)) rest
  else if c = '"' then do
    let (text, rest) ← doubleQuoted {} rest
    layout.takeNode? (.scalar .double (String.ofList text)) rest
  else if isSpace c || reserved.contains c then none
  else layout.takePlain?

def tokens? : (limit : Nat) → Layout → Option (List Token)
  | 0, _ => none
  | limit + 1, layout => do
    let layout ← layout.skip.refresh?
    let layout := layout.closeBlocks (some layout.place.column)
    match layout.rest with
    | [] => (layout.closeBlocks none).forget?.map (·.tokens)
    | c :: rest => (← layout.take? c rest).tokens? limit

end Layout

def tokens? (text : String) : Option (List Token) :=
  let chars := text.toList
  if chars.all isPrintable then
    Layout.tokens? (chars.length + 1) { rest := unifyBreaks chars }
  else none

end HatCircle.Yaml
