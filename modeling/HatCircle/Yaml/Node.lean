import HatCircle.Yaml.Token

/-!
# Nodes of YAML

The tree that the tokens of a document stand for, and the reader that builds it.
Where a key, a value or an item is missing the empty scalar stands in its place.

A node may be given a name and be meant again by that name further on. The names
have numbered slots. A name that is given takes the slot whose number is the count of
the names known so far, and whatever was in that slot is gone. A scalar that is meant
again is put in place at once; of a collection only the reference is kept.
-/

namespace HatCircle.Yaml

inductive Node where
  | scalar (scalar : Scalar)
  | list (items : List Node)
  | mapping (entries : List (Node × Node))
  | reference
deriving Repr, Inhabited

def Node.empty : Node :=
  .scalar .empty

structure Reading where
  tokens : List Token
  handles : List (String × String) := []
  slots : List (String × Nat) := []
  /-- What is in the slots, the last one filled first: a scalar or a collection. -/
  contents : List (Nat × Option Scalar) := []
deriving Repr

abbrev Reader := StateT Reading Option

namespace Reader

def peek : Reader (Option Token) := do
  return (← get).tokens.head?

def skip : Reader Unit :=
  modify fun reading => { reading with tokens := reading.tokens.tail }

def take : Reader Token := do
  match ← peek with
  | some token => skip; return token
  | none => failure

def accept (token : Token) : Reader Bool := do
  if (← peek) = some token then skip; return true
  else return false

def nextIn (tokens : List Token) : Reader Bool := do
  return (← peek).any tokens.contains

def define (name : String) (content : Option Scalar) : Reader Unit :=
  modify fun reading =>
    let slot := reading.slots.length
    { reading with
      slots := (name, slot) :: reading.slots.filter (·.1 != name)
      contents := (slot, content) :: reading.contents }

def named (name : String) : Reader Node := do
  let reading ← get
  match (reading.slots.lookup name).bind fun slot => reading.contents.lookup slot with
  | some (some scalar) => return .scalar scalar
  | some none => return .reference
  | none => failure

/-- The tag that is made of a handle and a suffix. A tag without a handle is
complete. -/
def tagOf (handle suffix : String) : Reader String := do
  if handle = "" then return suffix
  else
    match (← get).handles.lookup handle with
    | some meaning => return meaning ++ suffix
    | none => failure

structure Properties where
  name : Option String
  tag : Option String
deriving DecidableEq, Repr

def anchor : Reader (Option String) := do
  match ← peek with
  | some (.anchor name) => skip; return some name
  | _ => return none

def tag : Reader (Option String) := do
  match ← peek with
  | some (.tag handle suffix) => skip; return some (← tagOf handle suffix)
  | _ => return none

def properties : Reader Properties := do
  match ← anchor with
  | some name => return ⟨some name, ← tag⟩
  | none =>
    let tag ← tag
    return ⟨← anchor, tag⟩

def scalar (properties : Properties) (scalar : Scalar) : Reader Node := do
  match properties.name with
  | some name => define name (some scalar)
  | none => pure ()
  return .scalar scalar

def collection (properties : Properties) : Reader Unit := do
  match properties.name with
  | some name => define name none
  | none => pure ()

/-- The empty node of some properties, of which there has to be one. -/
def bare (properties : Properties) : Reader Node := do
  if properties.name.isNone && properties.tag.isNone then failure
  else scalar properties { Scalar.empty with tag := properties.tag }

/-- Stands for nothing in front of some tokens, and otherwise for what a reader reads. -/
def orEmpty (ends : List Token) (read : Reader Node) : Reader Node := do
  if ← nextIn ends then return .empty else read

/-- The tokens in front of which a key or a value of a block may be missing. -/
def blockEnds : List Token :=
  [.key, .value, .blockEnd]

/-- The tokens in front of which a value in brackets may be missing. -/
def flowEnds (shape : Shape) : List Token :=
  [.comma, .closing shape]

def valueOr (ends : List Token) (read : Reader Node) : Reader Node := do
  if ← accept .value then orEmpty ends read else return .empty

/-- Takes the comma in front of an item or entry that is not the first one. -/
def separate (isFirst : Bool) : Reader Unit := do
  if !isFirst then
    if !(← accept .comma) then failure

mutual

/-- A node. It can be a collection in block style only where `inBlock` says so, and a
list whose dashes stand at the indent of its key only where `isValue` does. -/
def node (inBlock isValue : Bool) : (limit : Nat) → Reader Node
  | 0 => failure
  | limit + 1 => do
    match ← peek with
    | some (.alias name) => skip; named name
    | _ =>
      let given ← properties
      match ← peek with
      | some (.scalar style text) =>
        skip
        scalar given ⟨style, given.tag.filter (· != "!"), text⟩
      | some (.opening .list) =>
        skip
        collection given
        return .list (← flowItems true limit)
      | some (.opening .mapping) =>
        skip
        collection given
        return .mapping (← flowEntries true limit)
      | some .dash =>
        if isValue then
          collection given
          return .list (← alignedItems limit)
        else bare given
      | some (.blockStart shape) =>
        if inBlock then
          skip
          collection given
          match shape with
          | .list => return .list (← blockItems limit)
          | .mapping => return .mapping (← blockEntries limit)
        else bare given
      | _ => bare given

/-- The items of a list in block style, up to its end. -/
def blockItems : (limit : Nat) → Reader (List Node)
  | 0 => failure
  | limit + 1 => do
    match ← take with
    | .dash =>
      let item ← orEmpty [.dash, .blockEnd] (node true false limit)
      return item :: (← blockItems limit)
    | .blockEnd => return []
    | _ => failure

/-- The items of a list whose dashes stand at the indent of its key. -/
def alignedItems : (limit : Nat) → Reader (List Node)
  | 0 => failure
  | limit + 1 => do
    if ← accept .dash then
      let item ← orEmpty (.dash :: blockEnds) (node true false limit)
      return item :: (← alignedItems limit)
    else return []

/-- The entries of a mapping in block style, up to its end. -/
def blockEntries : (limit : Nat) → Reader (List (Node × Node))
  | 0 => failure
  | limit + 1 => do
    match ← take with
    | .key =>
      let key ← orEmpty blockEnds (node true true limit)
      let value ← valueOr blockEnds (node true true limit)
      return (key, value) :: (← blockEntries limit)
    | .blockEnd => return []
    | _ => failure

/-- The items of a list in brackets, up to the closing one. An item may be an entry of
a mapping; where such an entry has no key, the token behind its mark is dropped. -/
def flowItems (isFirst : Bool) : (limit : Nat) → Reader (List Node)
  | 0 => failure
  | limit + 1 => do
    if ← accept (.closing .list) then return []
    else
      separate isFirst
      if ← accept .key then
        let isBare ← nextIn (.value :: flowEnds .list)
        let key ← if isBare then do skip; pure Node.empty else node false false limit
        let value ← valueOr (flowEnds .list) (node false false limit)
        return .mapping [(key, value)] :: (← flowItems false limit)
      else if ← accept (.closing .list) then return []
      else
        let item ← node false false limit
        return item :: (← flowItems false limit)

/-- The entries of a mapping in brackets, up to the closing one. -/
def flowEntries (isFirst : Bool) : (limit : Nat) → Reader (List (Node × Node))
  | 0 => failure
  | limit + 1 => do
    if ← accept (.closing .mapping) then return []
    else
      separate isFirst
      if ← accept .key then
        let key ← orEmpty (.value :: flowEnds .mapping) (node false false limit)
        let value ← valueOr (flowEnds .mapping) (node false false limit)
        return (key, value) :: (← flowEntries false limit)
      else if ← accept (.closing .mapping) then return []
      else
        let key ← node false false limit
        return (key, .empty) :: (← flowEntries false limit)

end

end Reader

end HatCircle.Yaml
