import HatCircle.Proofs.Parsing

/-!
# What the parser accepts

A reader that succeeds has read a phrase of its level and built the tree of that phrase
(`Recognises`). For the two levels of chains the argument is the same: the reader starts
with one item and goes on with an operator and an item as long as it can, so `Chain` holds
what it takes and `Chain.recognises` is shown once. The reader of factors calls the reader
of sums on what a parenthesis opens, and this is shorter.

Together with the converse, that the readers go through every phrase, the parser accepts
exactly the lexemes of sums that have a tree, and returns that tree (`parse_eq_ok_iff`).
Nothing is asked of the puzzle.
-/

namespace HatCircle

theorem bind_eq_ok_iff {ε α β : Type} (first : Except ε α) (next : α → Except ε β) (b : β) :
    (first >>= next) = .ok b ↔ ∃ a, first = .ok a ∧ next a = .ok b := by
  cases first with
  | error e => simp [bind, Except.bind]
  | ok a => simp [bind, Except.bind]

/-- Two calls in turn come to an end under a limit if each of them does, and they end as they
do without a limit. -/
theorem bind_eq_some {ε α β : Type} {call : ExceptT ε Option α} {next : α → ExceptT ε Option β}
    {first : Except ε α} {last : α → Except ε β} (hcall : call = some first)
    (hnext : ∀ a, first = .ok a → next a = some (last a)) :
    (call >>= next) = some (first >>= last) := by
  rw [hcall]
  cases first with
  | error error => rfl
  | ok a => exact hnext a rfl

/-- The numbers among the lexemes are runs of digits. -/
def Lexeme.DigitRuns (lexemes : List Lexeme) : Prop :=
  ∀ digits : String, .token (.number digits) ∈ lexemes → ∀ c ∈ digits.toList, c.isDigit = true

theorem Lexeme.DigitRuns.of_append {front back : List Lexeme} (h : DigitRuns (front ++ back)) :
    DigitRuns back := by
  intro digits hmem
  exact h digits (List.mem_append_right front hmem)

theorem Lexeme.DigitRuns.of_cons {lexeme : Lexeme} {rest : List Lexeme}
    (h : DigitRuns (lexeme :: rest)) : DigitRuns rest := by
  intro digits hmem
  exact h digits (List.mem_cons_of_mem lexeme hmem)

/-- Whatever the reader returns for these lexemes is the tree of a phrase with which they
begin, and the lexemes behind it. -/
def Recognises (puzzle : Puzzle) (level : Level)
    (read : List Lexeme → Except ParseError (Expr × List Lexeme)) (lexemes : List Lexeme) :
    Prop :=
  Lexeme.DigitRuns lexemes → ∀ tree rest, read lexemes = .ok (tree, rest) →
    ∃ phrase : Phrase level, lexemes = phrase.lexemes ++ rest ∧ phrase.Builds puzzle tree

/-! ### Factors -/

section Factor

variable {puzzle : Puzzle}

theorem readFactor_nil : readFactor puzzle [] = .error .unexpectedEnd := by
  rw [readFactor, parseFactor]
  rfl

theorem readFactor_closing (rest : List Lexeme) :
    readFactor puzzle (.closing :: rest) = .error (.unexpected Lexeme.closing.text) := by
  rw [readFactor, parseFactor]
  rfl

/-- The operands are the numbers and the variables with a meaning. -/
theorem exists_builds_of_operand {token : Token} {tree : Expr}
    (hruns : ∀ digits : String, token = .number digits → ∀ c ∈ digits.toList, c.isDigit = true)
    (h : token.operand puzzle = .ok tree) :
    ∃ phrase : Phrase .factor, phrase.lexemes = [.token token] ∧ phrase.Builds puzzle tree := by
  cases token with
  | number digits =>
      have hdigits := hruns digits rfl
      obtain rfl := Except.ok.inj h
      rw [reduceLiteral_eq _ hdigits]
      exact ⟨.number digits, rfl, .number hdigits⟩
  | «variable» name =>
      rw [Token.operand] at h
      cases hrule : puzzle.ruleOf? name with
      | none =>
          rw [hrule] at h
          cases h
      | some rule =>
          rw [hrule] at h
          obtain rfl := Except.ok.inj h
          exact ⟨.variable name, rfl, .variable ((ruleOf?_eq_some_iff ..).1 hrule)⟩
  | operator op => cases h

theorem recognises_factor {lexemes : List Lexeme}
    (ih : ∀ inner : List Lexeme, inner.length < lexemes.length →
      Recognises puzzle .sum (readExpr puzzle) inner) :
    Recognises puzzle .factor (readFactor puzzle) lexemes := by
  intro hruns tree rest h
  cases lexemes with
  | nil =>
      rw [readFactor_nil] at h
      cases h
  | cons lexeme after =>
      cases lexeme with
      | token token =>
          rw [readFactor_token] at h
          cases hoperand : token.operand puzzle with
          | error error =>
              rw [hoperand] at h
              cases h
          | ok found =>
              rw [hoperand] at h
              cases h
              have hdigits : ∀ digits : String, token = .number digits →
                  ∀ c ∈ digits.toList, c.isDigit = true := by
                rintro digits rfl
                exact hruns digits List.mem_cons_self
              obtain ⟨phrase, hphrase, hbuilds⟩ := exists_builds_of_operand hdigits hoperand
              exact ⟨phrase, by rw [hphrase, List.singleton_append], hbuilds⟩
      | opening =>
          rw [readFactor_opening, bind_eq_ok_iff] at h
          obtain ⟨⟨inner, behind⟩, hinner, h⟩ := h
          obtain ⟨phrase, rfl, hbuilds⟩ :=
            ih after (Nat.lt_succ_self _) hruns.of_cons inner behind hinner
          cases behind with
          | nil => cases h
          | cons next behind =>
              cases next with
              | token token => cases h
              | opening => cases h
              | closing =>
                  cases h
                  exact ⟨.group phrase, by simp [Phrase.lexemes], .group hbuilds⟩
      | closing =>
          rw [readFactor_closing] at h
          cases h

end Factor

/-! ### Chains -/

/-- The phrases of a level as chains of phrases of the level below, and their readers:
`readItem` reads one item, and `readOn` reads the rest of a chain whose tree so far is in
hand. -/
structure Chain (puzzle : Puzzle) (level item : Level) where
  joins : Operator → Prop
  single : Phrase item → Phrase level
  attach : Phrase level → (op : Operator) → joins op → Phrase item → Phrase level
  readItem : List Lexeme → Except ParseError (Expr × List Lexeme)
  readOn : Expr → List Lexeme → Except ParseError (Expr × List Lexeme)
  lexemes_single : ∀ body, (single body).lexemes = body.lexemes
  lexemes_attach : ∀ lhs op (h : joins op) rhs,
    (attach lhs op h rhs).lexemes = lhs.lexemes ++ .token (.operator op) :: rhs.lexemes
  builds_single : ∀ {body tree}, Phrase.Builds puzzle body tree →
    Phrase.Builds puzzle (single body) tree
  builds_attach : ∀ {lhs op rhs left right} (h : joins op), Phrase.Builds puzzle lhs left →
    Phrase.Builds puzzle rhs right →
    Phrase.Builds puzzle (attach lhs op h rhs) (.binary op left right)
  readOn_cases : ∀ lhs lexemes,
    readOn lhs lexemes = .ok (lhs, lexemes) ∨
      ∃ op rest, joins op ∧ lexemes = .token (.operator op) :: rest ∧
        readOn lhs lexemes = (do
          let rhs ← readItem rest
          readOn (.binary op lhs rhs.1) rhs.2)

namespace Chain

variable {puzzle : Puzzle} {level item : Level} (chain : Chain puzzle level item)

def read (lexemes : List Lexeme) : Except ParseError (Expr × List Lexeme) := do
  let first ← chain.readItem lexemes
  chain.readOn first.1 first.2

/-- Going on from a phrase leads to a longer phrase. -/
theorem exists_phrase_of_readOn {lexemes : List Lexeme} (hruns : Lexeme.DigitRuns lexemes)
    (hitem : ∀ inner : List Lexeme, inner.length < lexemes.length →
      Recognises puzzle item chain.readItem inner)
    {lhs : Phrase level} {left tree : Expr} {rest : List Lexeme} (hlhs : lhs.Builds puzzle left)
    (h : chain.readOn left lexemes = .ok (tree, rest)) :
    ∃ phrase : Phrase level, lhs.lexemes ++ lexemes = phrase.lexemes ++ rest ∧
      phrase.Builds puzzle tree := by
  induction hn : lexemes.length using Nat.strongRecOn generalizing lexemes lhs left with
  | ind n hrec =>
      subst hn
      rcases chain.readOn_cases left lexemes with hend | ⟨op, behind, hop, rfl, hnext⟩
      · rw [hend] at h
        cases h
        exact ⟨lhs, rfl, hlhs⟩
      · rw [hnext, bind_eq_ok_iff] at h
        obtain ⟨⟨right, after⟩, hright, h⟩ := h
        obtain ⟨rhs, rfl, hrhs⟩ :=
          hitem behind (Nat.lt_succ_self _) hruns.of_cons right after hright
        have hlt : after.length <
            (.token (.operator op) :: (rhs.lexemes ++ after)).length := by
          simp only [List.length_cons, List.length_append]
          omega
        obtain ⟨phrase, hphrase, hbuilds⟩ := hrec after.length hlt hruns.of_cons.of_append
          (fun inner hinner => hitem inner (hinner.trans hlt))
          (chain.builds_attach hop hlhs hrhs) h rfl
        refine ⟨phrase, ?_, hbuilds⟩
        rw [← hphrase, chain.lexemes_attach lhs op hop rhs, List.append_assoc, List.cons_append]

theorem recognises {lexemes : List Lexeme}
    (hitem : ∀ inner : List Lexeme, inner.length ≤ lexemes.length →
      Recognises puzzle item chain.readItem inner) :
    Recognises puzzle level chain.read lexemes := by
  intro hruns tree rest h
  rw [read, bind_eq_ok_iff] at h
  obtain ⟨⟨left, after⟩, hleft, h⟩ := h
  obtain ⟨body, rfl, hbody⟩ := hitem lexemes (Nat.le_refl _) hruns left after hleft
  have hle : after.length ≤ (body.lexemes ++ after).length := by
    simp only [List.length_append]
    omega
  obtain ⟨phrase, hphrase, hbuilds⟩ := chain.exists_phrase_of_readOn hruns.of_append
    (fun inner hinner => hitem inner (hinner.le.trans hle)) (chain.builds_single hbody) h
  exact ⟨phrase, by rw [← hphrase, chain.lexemes_single], hbuilds⟩

/-- Products are chains of factors. -/
def products (puzzle : Puzzle) : Chain puzzle .product .factor where
  joins op := op = .mul
  single := .factor
  attach lhs _ _ rhs := .times lhs rhs
  readItem := readFactor puzzle
  readOn := readFactors puzzle
  lexemes_single _ := rfl
  lexemes_attach := by
    rintro lhs op rfl rhs
    rfl
  builds_single := .factor
  builds_attach := by
    rintro lhs op rhs left right rfl hlhs hrhs
    exact .times hlhs hrhs
  readOn_cases lhs lexemes := by
    by_cases hhead : lexemes.head? = some (.token (.operator .mul))
    · obtain ⟨rest, rfl⟩ := List.head?_eq_some_iff.1 hhead
      exact .inr ⟨.mul, rest, rfl, rfl, readFactors_mul puzzle lhs rest⟩
    · exact .inl (readFactors_of_head? puzzle lhs hhead)

/-- Sums are chains of products. -/
def sums (puzzle : Puzzle) : Chain puzzle .sum .product where
  joins op := op.isAdditive = true
  single := .product
  attach := .join
  readItem := readTerm puzzle
  readOn := readTerms puzzle
  lexemes_single _ := rfl
  lexemes_attach _ _ _ _ := rfl
  builds_single := .product
  builds_attach _ := .join
  readOn_cases lhs lexemes := by
    by_cases hhead : ∃ op : Operator, op.isAdditive = true ∧
        lexemes.head? = some (.token (.operator op))
    · obtain ⟨op, hop, hhead⟩ := hhead
      obtain ⟨rest, rfl⟩ := List.head?_eq_some_iff.1 hhead
      exact .inr ⟨op, rest, hop, rfl, readTerms_additive puzzle lhs hop rest⟩
    · push Not at hhead
      exact .inl (readTerms_of_head? puzzle lhs hhead)

theorem read_products (puzzle : Puzzle) : (products puzzle).read = readTerm puzzle :=
  funext fun lexemes => (readTerm_eq puzzle lexemes).symm

theorem read_sums (puzzle : Puzzle) : (sums puzzle).read = readExpr puzzle :=
  funext fun lexemes => (readExpr_eq puzzle lexemes).symm

end Chain

/-! ### The parser -/

theorem recognises_sum (puzzle : Puzzle) (lexemes : List Lexeme) :
    Recognises puzzle .sum (readExpr puzzle) lexemes := by
  induction hn : lexemes.length using Nat.strongRecOn generalizing lexemes with
  | ind n hrec =>
      subst hn
      have hfactor : ∀ inner : List Lexeme, inner.length ≤ lexemes.length →
          Recognises puzzle .factor (readFactor puzzle) inner := by
        intro inner hinner
        apply recognises_factor
        intro deeper hdeeper
        exact hrec deeper.length (hdeeper.trans_le hinner) deeper rfl
      have hproduct : ∀ inner : List Lexeme, inner.length ≤ lexemes.length →
          Recognises puzzle .product (readTerm puzzle) inner := by
        intro inner hinner
        rw [← Chain.read_products]
        apply Chain.recognises
        intro deeper hdeeper
        exact hfactor deeper (hdeeper.trans hinner)
      rw [← Chain.read_sums]
      exact (Chain.sums puzzle).recognises hproduct

/-- The parser accepts the lexemes of the sums that have a tree, and returns the tree. -/
theorem parse_eq_ok_iff {puzzle : Puzzle} {lexemes : List Lexeme}
    (hruns : Lexeme.DigitRuns lexemes) (tree : Expr) :
    parse puzzle lexemes = .ok tree ↔
      ∃ phrase : Phrase .sum, phrase.lexemes = lexemes ∧ phrase.Builds puzzle tree := by
  constructor
  · intro h
    rw [parse_eq, bind_eq_ok_iff] at h
    obtain ⟨⟨found, rest⟩, hread, h⟩ := h
    obtain ⟨phrase, rfl, hbuilds⟩ := recognises_sum puzzle lexemes hruns found rest hread
    cases rest with
    | nil =>
        cases h
        exact ⟨phrase, by simp, hbuilds⟩
    | cons lexeme rest => cases h
  · rintro ⟨phrase, rfl, hbuilds⟩
    exact parse_lexemes hbuilds

end HatCircle
