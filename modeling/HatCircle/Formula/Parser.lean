import HatCircle.Formula.Lexer
import HatCircle.Formula.Tree

/-!
# From lexemes to trees

The grammar has three levels. A formula is a chain of terms joined by `+` and `-`,
a term is a chain of factors joined by `×`, and a factor is a number, a variable or
a formula in parentheses. Chains associate to the left. Each level reads from the
front of the lexemes and returns what is left of them together with the fact that
it is shorter, on which the recursion rests.
-/

namespace HatCircle

inductive ParseError where
  | unexpectedEnd
  | unexpected (text : String)
  | unclosed
  | trailing (text : String)
  | unknownVariable (name : String)
deriving DecidableEq, Repr

namespace ParseError

def message : ParseError → String
  | .unexpectedEnd => "unexpected end of formula"
  | .unexpected text => "unexpected `" ++ text ++ "`"
  | .unclosed => "unclosed parenthesis"
  | .trailing text => "unexpected trailing input `" ++ text ++ "`"
  | .unknownVariable name => "unknown variable `" ++ name ++ "`"

def toError (error : ParseError) : Error :=
  ⟨.formula, .new "parse" error.message⟩

end ParseError

/-- What a variable stands for: a name of the table, or else a bracket letter with
a distance. -/
def Puzzle.ruleOf? (puzzle : Puzzle) (text : String) : Option Rule :=
  match puzzle.named? text with
  | some rule => some rule
  | none =>
    match text.toList with
    | [letter, '[', distance, ']'] =>
      if isDistance distance then do
        let family ← puzzle.family? letter
        let places ← Numeral.digit? distance
        return family.rule places
      else none
    | _ => none

/-- The value of a run of digits, reduced after each digit. -/
def reduceLiteral (base : UInt8) (digits : List Char) : Int :=
  (digits.filterMap Numeral.digit?).foldl
    (fun (value : Int) (d : Nat) => (value * 10 + d) % Puzzle.modulus base) 0

/-- A tree read from the front of some lexemes, and what is left of them. -/
structure Parsed (lexemes : List Lexeme) where
  tree : Expr
  rest : List Lexeme
  shorter : rest.length < lexemes.length

def Token.operand (puzzle : Puzzle) : Token → Except ParseError Expr
  | .number digits => .ok (.number (reduceLiteral puzzle.base digits.toList) digits)
  | .variable name =>
    match puzzle.ruleOf? name with
    | some rule => .ok (.var name rule)
    | none => .error (.unknownVariable name)
  | .operator op => .error (.unexpected op.symbol)

/-- Does the operator join terms? -/
def Operator.isAdditive : Operator → Bool
  | .mul => false
  | _ => true

mutual

def parseFactor (puzzle : Puzzle) (lexemes : List Lexeme) :
    Except ParseError (Parsed lexemes) :=
  match lexemes with
  | [] => .error .unexpectedEnd
  | .token token :: rest => do
    let tree ← token.operand puzzle
    return ⟨tree, rest, by simp⟩
  | .closing :: _ => .error (.unexpected Lexeme.closing.text)
  | .opening :: rest => do
    let inner ← parseExpr puzzle rest
    match h : inner.rest with
    | .closing :: after =>
      return ⟨inner.tree, after, by
        have := inner.shorter
        simp only [h, List.length_cons] at this ⊢
        omega⟩
    | other :: _ => .error (.unexpected other.text)
    | [] => .error .unclosed
termination_by 3 * lexemes.length
decreasing_by simp only [List.length_cons]; omega

/-- Reads the rest of a term, whose tree so far is `lhs`. -/
def parseFactors (puzzle : Puzzle) (lhs : Expr) (lexemes : List Lexeme) :
    Except ParseError (Expr × { rest : List Lexeme // rest.length ≤ lexemes.length }) :=
  match lexemes with
  | .token (.operator .mul) :: rest => do
    let rhs ← parseFactor puzzle rest
    let (tree, after) ← parseFactors puzzle (.binary .mul lhs rhs.tree) rhs.rest
    return (tree, ⟨after.1, by
      have h₁ := rhs.shorter
      have h₂ := after.2
      simp only [List.length_cons]
      omega⟩)
  | _ => .ok (lhs, ⟨_, Nat.le_refl _⟩)
termination_by 3 * lexemes.length
decreasing_by
  · simp only [List.length_cons]; omega
  · have := rhs.shorter
    simp only [List.length_cons]; omega

def parseTerm (puzzle : Puzzle) (lexemes : List Lexeme) :
    Except ParseError (Parsed lexemes) := do
  let first ← parseFactor puzzle lexemes
  let (tree, after) ← parseFactors puzzle first.tree first.rest
  return ⟨tree, after.1, Nat.lt_of_le_of_lt after.2 first.shorter⟩
termination_by 3 * lexemes.length + 1
decreasing_by
  · omega
  · have := first.shorter
    omega

/-- Reads the rest of a formula, whose tree so far is `lhs`. -/
def parseTerms (puzzle : Puzzle) (lhs : Expr) (lexemes : List Lexeme) :
    Except ParseError (Expr × { rest : List Lexeme // rest.length ≤ lexemes.length }) :=
  match lexemes with
  | .token (.operator op) :: rest =>
    if op.isAdditive then do
      let rhs ← parseTerm puzzle rest
      let (tree, after) ← parseTerms puzzle (.binary op lhs rhs.tree) rhs.rest
      return (tree, ⟨after.1, by
        have h₁ := rhs.shorter
        have h₂ := after.2
        simp only [List.length_cons]
        omega⟩)
    else .ok (lhs, ⟨_, Nat.le_refl _⟩)
  | _ => .ok (lhs, ⟨_, Nat.le_refl _⟩)
termination_by 3 * lexemes.length
decreasing_by
  · simp only [List.length_cons]; omega
  · have := rhs.shorter
    simp only [List.length_cons]; omega

def parseExpr (puzzle : Puzzle) (lexemes : List Lexeme) :
    Except ParseError (Parsed lexemes) := do
  let first ← parseTerm puzzle lexemes
  let (tree, after) ← parseTerms puzzle first.tree first.rest
  return ⟨tree, after.1, Nat.lt_of_le_of_lt after.2 first.shorter⟩
termination_by 3 * lexemes.length + 2
decreasing_by
  · omega
  · have := first.shorter
    omega

end

/-- The tree of lexemes that are a formula from the first to the last. -/
def parse (puzzle : Puzzle) (lexemes : List Lexeme) : Except ParseError Expr := do
  let parsed ← parseExpr puzzle lexemes
  match parsed.rest with
  | [] => return parsed.tree
  | lexeme :: _ => throw (.trailing lexeme.text)

end HatCircle
