import HatCircle.Formula.Token

/-!
# From text to lexemes

The lexer reads a text without blanks from left to right. At each place it takes,
in this order, the longest variable name that begins there, a letter with a
bracketed digit, a run of digits, a parenthesis or an operator. `Lexeme.first?`
is one such step; `lex` repeats it on what the lexeme leaves over and stops at the
first character at which no lexeme begins.
-/

namespace HatCircle

/-- Of two names, the one that takes more bytes; the second one if they take equally many. -/
def longerName (a b : String) : String :=
  if b.utf8ByteSize < a.utf8ByteSize then a else b

/-- The longest variable name with which the text begins. The empty name begins every text. -/
def Puzzle.nameAt? (puzzle : Puzzle) (text : List Char) : Option String :=
  let names := (puzzle.vocabulary.map (·.name)).filter fun name => name.toList.isPrefixOf text
  names.foldl (fun best name => some (best.elim name fun b => longerName b name)) none

/-- Is the character a distance, a digit from 1 to 9? -/
def isDistance (c : Char) : Bool :=
  '1' ≤ c && c ≤ '9'

/-- The letter with a bracketed distance with which the text begins. -/
def Puzzle.bracketAt? (puzzle : Puzzle) (text : List Char) : Option String :=
  match text with
  | letter :: '[' :: distance :: ']' :: _ =>
    if isDistance distance && puzzle.isBracketLetter letter then
      some (String.ofList [letter, '[', distance, ']'])
    else none
  | _ => none

/-- The lexeme with which the text `c :: rest` begins. -/
def Lexeme.first? (puzzle : Puzzle) (c : Char) (rest : List Char) : Option Lexeme :=
  match puzzle.nameAt? (c :: rest) with
  | some name => some (.token (.variable name))
  | none =>
    match puzzle.bracketAt? (c :: rest) with
    | some name => some (.token (.variable name))
    | none =>
      if c.isDigit then
        some (.token (.number (String.ofList (c :: rest.takeWhile Char.isDigit))))
      else if c = '(' then some .opening
      else if c = ')' then some .closing
      else (Operator.ofChar? c).map fun op => .token (.operator op)

structure LexError where
  char : Char
  position : Nat
deriving DecidableEq, Repr

def LexError.message (error : LexError) : String :=
  "unexpected character `" ++ String.ofList [error.char] ++ "` at position " ++
    Numeral.render error.position

/-- The lexemes of a text that stands `position` characters into the whole. Behind the empty
name the whole text would be left over, again and again, so the text is given up there. -/
def lexAt (puzzle : Puzzle) (position : Nat) : List Char → Except LexError (List Lexeme)
  | [] => .ok []
  | c :: rest =>
    match Lexeme.first? puzzle c rest with
    | none => .error ⟨c, position⟩
    | some lexeme =>
      let width := lexeme.text.length
      if width = 0 then .error ⟨c, position⟩
      else do
        let lexemes ← lexAt puzzle (position + width) ((c :: rest).drop width)
        return lexeme :: lexemes
termination_by text => text.length
decreasing_by simp only [List.length_drop, List.length_cons]; omega

def lex (puzzle : Puzzle) (text : List Char) : Except LexError (List Lexeme) :=
  lexAt puzzle 0 text

def tokenize (puzzle : Puzzle) (text : String) : Except LexError (List Token) :=
  (lex puzzle text.toList).map Lexeme.tokens

end HatCircle
