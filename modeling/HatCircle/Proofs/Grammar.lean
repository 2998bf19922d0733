import HatCircle.Formula.Check
import HatCircle.Formula.Parser

/-!
# The grammar of formulas

A sum is a chain of products joined by `+` and `-`, a product is a chain of factors
joined by `×`, and a factor is a number, a variable or a sum in parentheses. `Phrase`
holds the derivations of this grammar, one type for each level. A phrase has a text
and the lexemes of that text; `Phrase.Admitted` says that its numbers and variables
are numbers and variables of a puzzle.

The grammar says nothing about how a text is checked, split or parsed. The last section
relates it to the order of tokens: parentheses apart, a phrase starts and ends with an
operand, and its operands and operators alternate.
-/

namespace HatCircle

/-! ### Derivations -/

inductive Level where
  | sum
  | product
  | factor
deriving DecidableEq, Repr

/-- A derivation of the grammar. Chains are derived from the left. -/
inductive Phrase : Level → Type where
  | number (digits : String) : Phrase .factor
  | variable (name : String) : Phrase .factor
  | group (inner : Phrase .sum) : Phrase .factor
  | factor (body : Phrase .factor) : Phrase .product
  | times (lhs : Phrase .product) (rhs : Phrase .factor) : Phrase .product
  | product (body : Phrase .product) : Phrase .sum
  | join (lhs : Phrase .sum) (op : Operator) (additive : op.isAdditive = true)
      (rhs : Phrase .product) : Phrase .sum

namespace Phrase

def text {level : Level} : Phrase level → List Char
  | .number digits => digits.toList
  | .variable name => name.toList
  | .group inner => '(' :: (inner.text ++ [')'])
  | .factor body => body.text
  | .times lhs rhs => lhs.text ++ '×' :: rhs.text
  | .product body => body.text
  | .join lhs op _ rhs => lhs.text ++ op.sign :: rhs.text

/-- The number of numbers, variables and operators in a phrase. -/
def tokenCount {level : Level} : Phrase level → Nat
  | .number _ => 1
  | .variable _ => 1
  | .group inner => inner.tokenCount
  | .factor body => body.tokenCount
  | .times lhs rhs => lhs.tokenCount + 1 + rhs.tokenCount
  | .product body => body.tokenCount
  | .join lhs _ _ rhs => lhs.tokenCount + 1 + rhs.tokenCount

def lexemes {level : Level} : Phrase level → List Lexeme
  | .number digits => [.token (.number digits)]
  | .variable name => [.token (.variable name)]
  | .group inner => .opening :: (inner.lexemes ++ [.closing])
  | .factor body => body.lexemes
  | .times lhs rhs => lhs.lexemes ++ .token (.operator .mul) :: rhs.lexemes
  | .product body => body.lexemes
  | .join lhs op _ rhs => lhs.lexemes ++ .token (.operator op) :: rhs.lexemes

end Phrase

/-! ### Numbers and variables of a puzzle -/

/-- A puzzle whose names are words of ASCII letters, none longer than a name listed
before it, whose bracket letters are ASCII letters and no names, and which has ten
colours at least if it has bracket letters, so that every distance is a digit. -/
structure Puzzle.WellFormed (puzzle : Puzzle) : Prop where
  words : ∀ entry ∈ puzzle.vocabulary,
    entry.name.toList ≠ [] ∧ ∀ c ∈ entry.name.toList, c.isAlpha = true
  longestFirst : puzzle.vocabulary.Pairwise fun a b => b.name.length ≤ a.name.length
  letters : ∀ family ∈ puzzle.brackets, family.letter.isAlpha = true ∧
    ∀ entry ∈ puzzle.vocabulary, entry.name.toList ≠ [family.letter]
  distances : puzzle.brackets ≠ [] → 10 ≤ puzzle.base.toNat

theorem Puzzle.wellFormed_iff (puzzle : Puzzle) :
    ((∀ entry ∈ puzzle.vocabulary,
        entry.name.toList ≠ [] ∧ entry.name.toList.all Char.isAlpha = true) ∧
      (puzzle.vocabulary.Pairwise fun a b => b.name.length ≤ a.name.length) ∧
      (∀ family ∈ puzzle.brackets, family.letter.isAlpha = true ∧
        ∀ entry ∈ puzzle.vocabulary, entry.name.toList ≠ [family.letter]) ∧
      (puzzle.brackets ≠ [] → 10 ≤ puzzle.base.toNat)) ↔ puzzle.WellFormed := by
  simp only [List.all_eq_true]
  constructor
  · rintro ⟨hwords, hlongest, hletters, hdistances⟩
    exact ⟨hwords, hlongest, hletters, hdistances⟩
  · intro wf
    exact ⟨wf.words, wf.longestFirst, wf.letters, wf.distances⟩

instance (puzzle : Puzzle) : Decidable puzzle.WellFormed :=
  decidable_of_iff _ puzzle.wellFormed_iff

theorem Puzzle.wellFormed_ten : Puzzle.ten.WellFormed := by decide

theorem Puzzle.wellFormed_two : Puzzle.two.WellFormed := by decide

/-- The characters of a number: at least one, and each a digit below the number of colours. -/
def Puzzle.IsNumber (puzzle : Puzzle) (digits : List Char) : Prop :=
  digits ≠ [] ∧ ∀ c ∈ digits, c.isDigit = true ∧ c.toNat - '0'.toNat < puzzle.base.toNat

instance (puzzle : Puzzle) (digits : List Char) : Decidable (puzzle.IsNumber digits) :=
  decidable_of_iff
    (digits ≠ [] ∧ digits.all
      (fun c => c.isDigit && decide (c.toNat - '0'.toNat < puzzle.base.toNat)) = true)
    (by simp only [Puzzle.IsNumber, List.all_eq_true, Bool.and_eq_true, decide_eq_true_eq])

/-- The spellings of variables: the names of the table, and each bracket letter with a
digit from 1 to 9 in brackets behind it. -/
inductive Puzzle.IsVariable (puzzle : Puzzle) : String → Prop where
  | word {entry : NamedVariable} (listed : entry ∈ puzzle.vocabulary) :
      puzzle.IsVariable entry.name
  | bracket {family : BracketFamily} {distance : Char} (listed : family ∈ puzzle.brackets)
      (range : '1' ≤ distance ∧ distance ≤ '9') :
      puzzle.IsVariable (String.ofList [family.letter, '[', distance, ']'])

/-- The numbers and variables of the phrase are those of the puzzle. -/
def Phrase.Admitted {level : Level} (puzzle : Puzzle) : Phrase level → Prop
  | .number digits => puzzle.IsNumber digits.toList
  | .variable name => puzzle.IsVariable name
  | .group inner => inner.Admitted puzzle
  | .factor body => body.Admitted puzzle
  | .times lhs rhs => lhs.Admitted puzzle ∧ rhs.Admitted puzzle
  | .product body => body.Admitted puzzle
  | .join lhs _ _ rhs => lhs.Admitted puzzle ∧ rhs.Admitted puzzle

/-! ### Texts of lexemes -/

def Lexeme.spell (lexemes : List Lexeme) : List Char :=
  lexemes.flatMap fun lexeme => lexeme.text.toList

namespace Lexeme

@[simp] theorem spell_nil : spell [] = [] := rfl

@[simp] theorem spell_cons (lexeme : Lexeme) (lexemes : List Lexeme) :
    spell (lexeme :: lexemes) = lexeme.text.toList ++ spell lexemes := by
  simp only [spell, List.flatMap_cons]

@[simp] theorem spell_append (front back : List Lexeme) :
    spell (front ++ back) = spell front ++ spell back := by
  simp only [spell, List.flatMap_append]

@[simp] theorem tokens_nil : tokens [] = [] := rfl

@[simp] theorem tokens_token (token : Token) (lexemes : List Lexeme) :
    tokens (.token token :: lexemes) = token :: tokens lexemes := rfl

@[simp] theorem tokens_opening (lexemes : List Lexeme) :
    tokens (.opening :: lexemes) = tokens lexemes := rfl

@[simp] theorem tokens_closing (lexemes : List Lexeme) :
    tokens (.closing :: lexemes) = tokens lexemes := rfl

@[simp] theorem tokens_append (front back : List Lexeme) :
    tokens (front ++ back) = tokens front ++ tokens back := by
  simp only [tokens, List.filterMap_append]

@[simp] theorem toList_text_operator (op : Operator) :
    (Lexeme.token (.operator op)).text.toList = [op.sign] := by
  simp only [text, Token.text, Operator.symbol, String.toList_ofList]

@[simp] theorem toList_text_opening : Lexeme.opening.text.toList = ['('] := rfl

@[simp] theorem toList_text_closing : Lexeme.closing.text.toList = [')'] := rfl

end Lexeme

theorem Phrase.spell_lexemes {level : Level} (phrase : Phrase level) :
    Lexeme.spell phrase.lexemes = phrase.text := by
  induction phrase with
  | number digits => simp [lexemes, text, Lexeme.text, Token.text]
  | «variable» name => simp [lexemes, text, Lexeme.text, Token.text]
  | group inner ih => simp [lexemes, text, ih]
  | factor body ih => exact ih
  | times lhs rhs ihl ihr => simp [lexemes, text, ihl, ihr, Operator.sign]
  | product body ih => exact ih
  | join lhs op additive rhs ihl ihr => simp [lexemes, text, ihl, ihr]

theorem Phrase.length_tokens {level : Level} (phrase : Phrase level) :
    (Lexeme.tokens phrase.lexemes).length = phrase.tokenCount := by
  induction phrase with
  | number digits => rfl
  | «variable» name => rfl
  | group inner ih => simp [lexemes, tokenCount, ih]
  | factor body ih => exact ih
  | times lhs rhs ihl ihr => simp [lexemes, tokenCount, ihl, ihr]; omega
  | product body ih => exact ih
  | join lhs op additive rhs ihl ihr => simp [lexemes, tokenCount, ihl, ihr]; omega

end HatCircle
