import HatCircle.Yaml.Lexer
import HatCircle.Yaml.Node

/-!
# Documents of YAML

A text holds one document at most: directives, a mark, and the node. Without
directives the mark may be missing. Behind the node only marks for the end of the
document may stand. `mapping?` takes an empty document for a mapping without
entries.
-/

namespace HatCircle.Yaml

/-- The meanings of the handles that no directive has to declare. -/
def knownHandles : List (String × String) :=
  [("!", "!"), ("!!", "tag:yaml.org,2002:")]

namespace Reader

def isDirectiveNext : Reader Bool := do
  match ← peek with
  | some (.version ..) => return true
  | some (.handle ..) => return true
  | _ => return false

/-- The directives of a document: at most one version, which is 1.1 or 1.2, and handles,
none of them twice. -/
def directives (hasVersion : Bool) : (limit : Nat) → Reader Unit
  | 0 => failure
  | limit + 1 => do
    match ← peek with
    | some (.version major minor) =>
      if hasVersion || major != 1 || !(minor == 1 || minor == 2) then failure
      else
        skip
        directives true limit
    | some (.handle name meaning) =>
      let reading ← get
      if (reading.handles.lookup name).isSome then failure
      else
        set { reading with handles := (name, meaning) :: reading.handles }
        skip
        directives hasVersion limit
    | _ => modify fun reading => { reading with handles := reading.handles ++ knownHandles }

/-- The node behind the mark that begins a document. It may be missing. -/
def content (limit : Nat) : Reader Node := do
  let isMissing := (← peek).isNone || (← isDirectiveNext)
  if isMissing || (← nextIn [.documentStart, .documentEnd]) then return .empty
  else node true false limit

/-- Drops the marks for the end of a document, behind which nothing may follow. -/
def finish : Reader Unit := do
  let rest := (← get).tokens.dropWhile (· == .documentEnd)
  if !rest.isEmpty then failure

def document (limit : Nat) : Reader (Option Node) := do
  if (← peek).isNone then return none
  else
    let isMarked := (← isDirectiveNext) || (← nextIn [.documentStart])
    directives false limit
    if isMarked then
      if !(← accept .documentStart) then failure
    let node ← if isMarked then content limit else node true false limit
    finish
    return some node

end Reader

/-- The node of the document that some tokens are, if there is one. No reader calls
another one more often than twice for a token. -/
def Node.ofTokens? (tokens : List Token) : Option (Option Node) :=
  ((Reader.document (2 * tokens.length + 2)).run { tokens }).map (·.1)

/-- The node of the document that a text is, if there is one. -/
def document? (text : String) : Option (Option Node) :=
  (tokens? text).bind Node.ofTokens?

def Node.scalar? : Node → Option Scalar
  | .scalar content => some content
  | _ => none

/-- The entries of the mapping that a text is. Keys have to be scalars. -/
def mapping? (text : String) : Option (List (Scalar × Node)) := do
  match ← document? text with
  | none => some []
  | some (.scalar scalar) =>
    if scalar.style = .plain ∧ scalar.text = "" then some [] else none
  | some (.mapping entries) =>
    entries.mapM fun entry => do return (← entry.1.scalar?, entry.2)
  | _ => none

end HatCircle.Yaml
