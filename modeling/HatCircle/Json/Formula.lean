import HatCircle.Formula.Basic
import HatCircle.Json.Puzzle

/-!
# Documents of formulas

How tokens, trees, rejections and verdicts are written as documents, and how trees
and rejections are read.
-/

namespace HatCircle

def TokenKind.name : TokenKind → String
  | .number => "number"
  | .variable => "variable"
  | .operator => "operator"

def Token.toJson (token : Token) : Json :=
  .obj [("kind", .str token.kind.name), ("text", .str token.text)]

def Operator.name : Operator → String
  | .add => "add"
  | .sub => "sub"
  | .mul => "mul"

def Operator.ofName? (name : String) : Option Operator :=
  [Operator.add, .sub, .mul].find? fun op => op.name == name

def Operator.ofJson? (document : Json) : Option Operator :=
  (document.bare? Json.isVoid).bind ofName?

namespace Expr

def toJson : Expr → Json
  | .number value literal =>
    .obj [("node", .str "number"), ("value", .int value), ("literal", .str literal)]
  | .var name rule =>
    .obj [("node", .str "var"), ("name", .str name), ("rule", rule.toJson)]
  | .binary op lhs rhs =>
    .obj [("node", .str "binary"), ("op", .str op.name), ("lhs", lhs.toJson),
      ("rhs", rhs.toJson)]

/-- The names of the variants of trees in the order of their numbers. -/
def names : List String :=
  ["number", "var", "binary"]

/-- The tree of a document, with numbers for some names. Every name has a number
inside the document. -/
def ofNumberedJson? (numbered : List String) (document : Json) : Option Expr :=
  match document.variant? numbered "node" with
  | some "number" =>
    match document.parts? ["value", "literal"] with
    | some [value, literal] => do return .number (← value.signed64?) (← literal.str?)
    | _ => none
  | some "var" =>
    match document.parts? ["name", "rule"] with
    | some [name, rule] => do return .var (← name.str?) (← Rule.ofInnerJson? rule)
    | _ => none
  | some "binary" =>
    match _h : document.parts? ["op", "lhs", "rhs"] with
    | some [op, lhs, rhs] => do
      return .binary (← Operator.ofJson? op) (← ofNumberedJson? names lhs)
        (← ofNumberedJson? names rhs)
    | _ => none
  | _ => none
termination_by sizeOf document
decreasing_by
  · exact Json.sizeOf_parts _h (by simp)
  · exact Json.sizeOf_parts _h (by simp)

def ofJson? (document : Json) : Option Expr :=
  ofNumberedJson? [] document

end Expr

namespace Rejection

def parts : Rejection → List (String × Json)
  | .invalidCharacters found => [("found", .str found)]
  | .malformedBracket fragment => [("fragment", .str fragment)]
  | .invalidBracketContent content => [("content", .str content)]
  | .tooManyTokens count limit => [("count", .ofNat count), ("max", .ofNat limit)]
  | .consecutiveOperators first second => [("first", .str first), ("second", .str second)]
  | .missingOperator left right => [("left", .str left), ("right", .str right)]
  | .danglingOperator operator => [("operator", .str operator)]
  | _ => []

def toJson (rejection : Rejection) : Json :=
  .obj (("category", .str rejection.category) :: rejection.parts)

def ofBare (rejection : Rejection) (document : Json) : Option Rejection :=
  (document.parts? []).map fun _ => rejection

def ofText (make : String → Rejection) (name : String) (document : Json) : Option Rejection :=
  match document.parts? [name] with
  | some [text] => text.str?.map make
  | _ => none

def ofTexts (make : String → String → Rejection) (first second : String) (document : Json) :
    Option Rejection :=
  match document.parts? [first, second] with
  | some [a, b] => do return make (← a.str?) (← b.str?)
  | _ => none

def ofJson? (document : Json) : Option Rejection :=
  match document.variant? [] "category" with
  | some "empty" => ofBare .empty document
  | some "unbalanced-parentheses" => ofBare .unbalancedParentheses document
  | some "empty-parentheses" => ofBare .emptyParentheses document
  | some "operator-only-parentheses" => ofBare .operatorOnlyParentheses document
  | some "leading-operator-in-parentheses" => ofBare .leadingOperatorInParentheses document
  | some "trailing-operator-in-parentheses" => ofBare .trailingOperatorInParentheses document
  | some "invalid-characters" => ofText .invalidCharacters "found" document
  | some "malformed-bracket" => ofText .malformedBracket "fragment" document
  | some "invalid-bracket-content" => ofText .invalidBracketContent "content" document
  | some "no-operand" => ofBare .noOperand document
  | some "too-many-tokens" =>
    match document.parts? ["count", "max"] with
    | some [count, limit] => do
      return .tooManyTokens (← count.unsigned64?) (← limit.unsigned64?)
    | _ => none
  | some "leading-operator" => ofBare .leadingOperator document
  | some "trailing-operator" => ofBare .trailingOperator document
  | some "consecutive-operators" => ofTexts .consecutiveOperators "first" "second" document
  | some "missing-operator" => ofTexts .missingOperator "left" "right" document
  | some "dangling-operator" => ofText .danglingOperator "operator" document
  | _ => none

end Rejection

/-- The document of a verdict; a missing category is left out. -/
def Verdict.toJson (verdict : Verdict) : Json :=
  .obj <| [("isValid", .bool verdict.isValid), ("error", .str verdict.error)] ++
    match verdict.category with
    | none => []
    | some category => [("category", .str category)]

end HatCircle
