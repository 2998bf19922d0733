import HatCircle.Proofs.Meaning

/-!
# What the parser makes of a phrase

The readers of the parser return, beside the tree and the lexemes behind it, the fact that
lexemes were used up, and that fact depends on the lexemes. `readFactor` to `readExpr` are
the same readers without it, and their equations are those of a plain recursive descent.

A chain is read from the left: when a reader has gone through the lexemes of a phrase, it
stands where it would stand if it had been called with the tree of the phrase in hand
(`Reads`). This is shown by induction on the phrase, and it yields the tree of the phrase
once nothing is left (`parse_lexemes`).
-/

namespace HatCircle

/-! ### The readers -/

section Readers

variable (puzzle : Puzzle)

def Parsed.result {lexemes : List Lexeme} (parsed : Parsed lexemes) : Expr × List Lexeme :=
  (parsed.tree, parsed.rest)

def readFactor (lexemes : List Lexeme) : Except ParseError (Expr × List Lexeme) :=
  (parseFactor puzzle lexemes).map Parsed.result

def readFactors (lhs : Expr) (lexemes : List Lexeme) : Except ParseError (Expr × List Lexeme) :=
  (parseFactors puzzle lhs lexemes).map fun read => (read.1, read.2.1)

def readTerm (lexemes : List Lexeme) : Except ParseError (Expr × List Lexeme) :=
  (parseTerm puzzle lexemes).map Parsed.result

def readTerms (lhs : Expr) (lexemes : List Lexeme) : Except ParseError (Expr × List Lexeme) :=
  (parseTerms puzzle lhs lexemes).map fun read => (read.1, read.2.1)

def readExpr (lexemes : List Lexeme) : Except ParseError (Expr × List Lexeme) :=
  (parseExpr puzzle lexemes).map Parsed.result

theorem readFactor_token (token : Token) (rest : List Lexeme) :
    readFactor puzzle (.token token :: rest) =
      (token.operand puzzle).map fun tree => (tree, rest) := by
  rw [readFactor, parseFactor]
  cases token.operand puzzle with
  | error error => rfl
  | ok tree => rfl

theorem readFactor_opening (rest : List Lexeme) :
    readFactor puzzle (.opening :: rest) = (do
      let inner ← readExpr puzzle rest
      match inner.2 with
      | .closing :: after => return (inner.1, after)
      | other :: _ => throw (.unexpected other.text)
      | [] => throw .unclosed) := by
  rw [readFactor, parseFactor, readExpr]
  cases parseExpr puzzle rest with
  | error error => rfl
  | ok inner =>
      obtain ⟨tree, after, hshorter⟩ := inner
      cases after with
      | nil => rfl
      | cons lexeme after => cases lexeme <;> rfl

theorem readFactors_mul (lhs : Expr) (rest : List Lexeme) :
    readFactors puzzle lhs (.token (.operator .mul) :: rest) = (do
      let rhs ← readFactor puzzle rest
      readFactors puzzle (.binary .mul lhs rhs.1) rhs.2) := by
  rw [readFactors, parseFactors, readFactor]
  cases parseFactor puzzle rest with
  | error error => rfl
  | ok rhs =>
      obtain ⟨tree, after, hshorter⟩ := rhs
      simp only [Except.map, bind, Except.bind, Parsed.result, readFactors]
      cases parseFactors puzzle (.binary .mul lhs tree) after with
      | error error => rfl
      | ok read => rfl

theorem readFactors_of_head? (lhs : Expr) {lexemes : List Lexeme}
    (h : lexemes.head? ≠ some (.token (.operator .mul))) :
    readFactors puzzle lhs lexemes = .ok (lhs, lexemes) := by
  rw [readFactors, parseFactors.eq_def]
  split
  · exact absurd rfl h
  · rfl

theorem readTerm_eq (lexemes : List Lexeme) :
    readTerm puzzle lexemes = (do
      let first ← readFactor puzzle lexemes
      readFactors puzzle first.1 first.2) := by
  rw [readTerm, parseTerm, readFactor]
  cases parseFactor puzzle lexemes with
  | error error => rfl
  | ok first =>
      simp only [Except.map, bind, Except.bind, Parsed.result, readFactors]
      cases parseFactors puzzle first.tree first.rest with
      | error error => rfl
      | ok read => rfl

theorem readTerms_additive (lhs : Expr) {op : Operator} (h : op.isAdditive = true)
    (rest : List Lexeme) :
    readTerms puzzle lhs (.token (.operator op) :: rest) = (do
      let rhs ← readTerm puzzle rest
      readTerms puzzle (.binary op lhs rhs.1) rhs.2) := by
  rw [readTerms, parseTerms, if_pos h, readTerm]
  cases parseTerm puzzle rest with
  | error error => rfl
  | ok rhs =>
      obtain ⟨tree, after, hshorter⟩ := rhs
      simp only [Except.map, bind, Except.bind, Parsed.result, readTerms]
      cases parseTerms puzzle (.binary op lhs tree) after with
      | error error => rfl
      | ok read => rfl

theorem readTerms_of_head? (lhs : Expr) {lexemes : List Lexeme}
    (h : ∀ op : Operator, op.isAdditive = true →
      lexemes.head? ≠ some (.token (.operator op))) :
    readTerms puzzle lhs lexemes = .ok (lhs, lexemes) := by
  rw [readTerms, parseTerms.eq_def]
  split
  · rename_i op rest
    split
    · rename_i hop
      exact absurd rfl (h op hop)
    · rfl
  · rfl

theorem readExpr_eq (lexemes : List Lexeme) :
    readExpr puzzle lexemes = (do
      let first ← readTerm puzzle lexemes
      readTerms puzzle first.1 first.2) := by
  rw [readExpr, parseExpr, readTerm]
  cases parseTerm puzzle lexemes with
  | error error => rfl
  | ok first =>
      simp only [Except.map, bind, Except.bind, Parsed.result, readTerms]
      cases parseTerms puzzle first.tree first.rest with
      | error error => rfl
      | ok read => rfl

theorem parse_eq (lexemes : List Lexeme) :
    parse puzzle lexemes = (do
      let read ← readExpr puzzle lexemes
      match read.2 with
      | [] => return read.1
      | lexeme :: _ => throw (.trailing lexeme.text)) := by
  rw [parse, readExpr]
  cases parseExpr puzzle lexemes with
  | error error => rfl
  | ok read => rfl

end Readers

/-! ### Reading a phrase -/

/-- The reader of a level goes through the lexemes of a phrase and stands behind them with
the tree in hand. A sum ends only where no further factor can follow. -/
def Phrase.Reads (puzzle : Puzzle) (tree : Expr) : (level : Level) → Phrase level → Prop
  | .factor, phrase => ∀ rest, readFactor puzzle (phrase.lexemes ++ rest) = .ok (tree, rest)
  | .product, phrase =>
    ∀ rest, readTerm puzzle (phrase.lexemes ++ rest) = readFactors puzzle tree rest
  | .sum, phrase => ∀ rest, rest.head? ≠ some (.token (.operator .mul)) →
    readExpr puzzle (phrase.lexemes ++ rest) = readTerms puzzle tree rest

theorem Phrase.Builds.reads {puzzle : Puzzle} {level : Level} {phrase : Phrase level}
    {tree : Expr} (h : Builds puzzle phrase tree) : phrase.Reads puzzle tree level := by
  induction h with
  | number hrun =>
      intro rest
      rw [lexemes, List.singleton_append, readFactor_token, Token.operand, reduceLiteral_eq _ hrun]
      rfl
  | «variable» hdeclared =>
      intro rest
      rw [lexemes, List.singleton_append, readFactor_token, Token.operand,
        (ruleOf?_eq_some_iff ..).2 hdeclared]
      rfl
  | @group inner tree _ ih =>
      intro rest
      have hinner : readExpr puzzle (inner.lexemes ++ .closing :: rest) =
          .ok (tree, .closing :: rest) := by
        rw [ih (.closing :: rest) (by simp)]
        exact readTerms_of_head? puzzle tree (by simp)
      rw [lexemes, List.cons_append, List.append_assoc, List.singleton_append,
        readFactor_opening, hinner]
      rfl
  | @factor body tree _ ih =>
      intro rest
      rw [lexemes, readTerm_eq, ih rest]
      rfl
  | @times lhs rhs left right _ _ ihl ihr =>
      intro rest
      rw [lexemes, List.append_assoc, List.cons_append, ihl, readFactors_mul, ihr rest]
      rfl
  | @product body tree _ ih =>
      intro rest hrest
      rw [lexemes, readExpr_eq, ih rest, readFactors_of_head? puzzle tree hrest]
      rfl
  | @join lhs op additive rhs left right _ _ ihl ihr =>
      intro rest hrest
      have hop : op ≠ .mul := by
        rintro rfl
        cases additive
      rw [lexemes, List.append_assoc, List.cons_append, ihl _ (by simpa using hop),
        readTerms_additive puzzle left additive, ihr rest,
        readFactors_of_head? puzzle right hrest]
      rfl

/-- The parser gives the lexemes of a sum the tree of the sum. -/
theorem parse_lexemes {puzzle : Puzzle} {phrase : Phrase .sum} {tree : Expr}
    (h : phrase.Builds puzzle tree) : parse puzzle phrase.lexemes = .ok tree := by
  have hread : readExpr puzzle (phrase.lexemes ++ []) = .ok (tree, []) := by
    rw [h.reads [] (by simp)]
    exact readTerms_of_head? puzzle tree (by simp)
  rw [List.append_nil] at hread
  rw [parse_eq, hread]
  rfl

end HatCircle
