import HatCircle.Proofs.Compilation
import HatCircle.Proofs.Regrouping

/-!
# The canonical text of a formula

Every tree has a phrase that is read back as the tree, with parentheses around an operand
only where its level of the grammar demands them (`Expr.phrase`). On a tree in which only
subtractions have right operands that bind as strongly as they do, these are the parentheses
of its text, and the two differ in the blanks around the operators alone
(`text_phrase`).

A tree has the text of its regrouped tree, so that is the tree which is read from its text:
the canonical text of a formula compiles, to a formula with the same tokens, the same
canonical text and the same guesses (`compile_canonical`, `canonical_means_same`).
-/

namespace HatCircle

/-! ### Phrases at other levels -/

/-- Does a phrase of level `own` need parentheses to stand where `level` is asked for? -/
def Level.groups : (own level : Level) → Bool
  | .sum, .product => true
  | .sum, .factor => true
  | .product, .factor => true
  | _, _ => false

/-- A phrase of one level as a phrase of another one, in parentheses where they are needed. -/
def Phrase.raise {own : Level} (phrase : Phrase own) (level : Level) : Phrase level :=
  match own, level, phrase with
  | .sum, .sum, body => body
  | .sum, .product, body => .factor (.group body)
  | .sum, .factor, body => .group body
  | .product, .sum, body => .product body
  | .product, .product, body => body
  | .product, .factor, body => .group (.product body)
  | .factor, .sum, body => .product (.factor body)
  | .factor, .product, body => .factor body
  | .factor, .factor, body => body

namespace Phrase

variable {puzzle : Puzzle} {own : Level} (phrase : Phrase own) (level : Level)

theorem text_raise : (phrase.raise level).text =
    if own.groups level then '(' :: (phrase.text ++ [')']) else phrase.text := by
  cases own <;> cases level <;> rfl

theorem admitted_raise : (phrase.raise level).Admitted puzzle ↔ phrase.Admitted puzzle := by
  cases own <;> cases level <;> rfl

variable {phrase}

theorem Builds.raise {tree : Expr} (h : phrase.Builds puzzle tree) :
    (phrase.raise level).Builds puzzle tree := by
  cases own with
  | sum =>
      cases level with
      | sum => exact h
      | product => exact .factor (.group h)
      | factor => exact .group h
  | product =>
      cases level with
      | sum => exact .product h
      | product => exact h
      | factor => exact .group (.product h)
  | factor =>
      cases level with
      | sum => exact .product (.factor h)
      | product => exact .factor h
      | factor => exact h

end Phrase

/-! ### The tree of a phrase -/

/-- A tree has the tokens of the phrase that it is built from. -/
theorem Phrase.Builds.tokens_eq {puzzle : Puzzle} {level : Level} {phrase : Phrase level}
    {tree : Expr} (h : phrase.Builds puzzle tree) :
    tree.tokens = Lexeme.tokens phrase.lexemes := by
  induction h with
  | number => rfl
  | «variable» => rfl
  | group _ ih => simp [lexemes, ih]
  | factor _ ih => exact ih
  | times _ _ ihl ihr => simp [Expr.tokens, lexemes, ihl, ihr]
  | product _ ih => exact ih
  | join _ _ ihl ihr => simp [Expr.tokens, lexemes, ihl, ihr]

theorem Phrase.Builds.admitted {puzzle : Puzzle} {level : Level} {phrase : Phrase level}
    {tree : Expr} (h : phrase.Builds puzzle tree) (hphrase : phrase.Admitted puzzle) :
    tree.Admitted puzzle := by
  induction h with
  | number => exact ⟨hphrase, rfl⟩
  | «variable» hdeclared => exact hdeclared
  | group _ ih => exact ih hphrase
  | factor _ ih => exact ih hphrase
  | times _ _ ihl ihr => exact ⟨ihl hphrase.1, ihr hphrase.2⟩
  | product _ ih => exact ih hphrase
  | join _ _ ihl ihr => exact ⟨ihl hphrase.1, ihr hphrase.2⟩

/-! ### The phrase of a tree -/

theorem Operator.isAdditive_add : Operator.add.isAdditive = true := rfl

theorem Operator.isAdditive_sub : Operator.sub.isAdditive = true := rfl

namespace Expr

/-- A phrase of the tree, with no more parentheses than the grammar demands. -/
def phrase : Expr → (level : Level) → Phrase level
  | .number _ literal, level => (Phrase.number literal).raise level
  | .var name _, level => (Phrase.variable name).raise level
  | .binary .add lhs rhs, level =>
    (Phrase.join (lhs.phrase .sum) .add Operator.isAdditive_add (rhs.phrase .product)).raise level
  | .binary .sub lhs rhs, level =>
    (Phrase.join (lhs.phrase .sum) .sub Operator.isAdditive_sub (rhs.phrase .product)).raise level
  | .binary .mul lhs rhs, level =>
    (Phrase.times (lhs.phrase .product) (rhs.phrase .factor)).raise level

theorem builds_phrase {puzzle : Puzzle} {tree : Expr} (h : tree.Admitted puzzle)
    (level : Level) : (tree.phrase level).Builds puzzle tree := by
  induction tree generalizing level with
  | number value literal =>
      obtain ⟨hnumber, rfl⟩ := h
      exact (Phrase.Builds.number fun c hc => (hnumber.2 c hc).1).raise level
  | var name rule => exact (Phrase.Builds.variable h).raise level
  | binary op lhs rhs ihl ihr =>
      cases op with
      | add => exact (Phrase.Builds.join (ihl h.1 _) (ihr h.2 _)).raise level
      | sub => exact (Phrase.Builds.join (ihl h.1 _) (ihr h.2 _)).raise level
      | mul => exact (Phrase.Builds.times (ihl h.1 _) (ihr h.2 _)).raise level

theorem admitted_phrase {puzzle : Puzzle} {tree : Expr} (h : tree.Admitted puzzle)
    (level : Level) : (tree.phrase level).Admitted puzzle := by
  induction tree generalizing level with
  | number value literal => exact (Phrase.admitted_raise _ level).2 h.1
  | var name rule => exact (Phrase.admitted_raise _ level).2 h.isVariable
  | binary op lhs rhs ihl ihr =>
      cases op with
      | add => exact (Phrase.admitted_raise _ level).2 ⟨ihl h.1 _, ihr h.2 _⟩
      | sub => exact (Phrase.admitted_raise _ level).2 ⟨ihl h.1 _, ihr h.2 _⟩
      | mul => exact (Phrase.admitted_raise _ level).2 ⟨ihl h.1 _, ihr h.2 _⟩

end Expr

/-! ### Blanks -/

namespace Text

theorem compact_append (front back : List Char) :
    compact (front ++ back) = compact front ++ compact back :=
  List.filter_append ..

theorem compact_parentheses (text back : List Char) :
    compact ('(' :: (text ++ ')' :: back)) = '(' :: (compact text ++ ')' :: compact back) := by
  have hopening : isBlank '(' = false := by decide
  have hclosing : isBlank ')' = false := by decide
  simp [compact, List.filter_append, hopening, hclosing]

theorem compact_eq_self {text : List Char} (h : ∀ c ∈ text, isBlank c = false) :
    compact text = text := by
  rw [compact, List.filter_eq_self]
  intro c hc
  rw [h c hc, Bool.not_false]

end Text

theorem isBlank_of_isAlpha {c : Char} (h : c.isAlpha = true) : isBlank c = false := by
  rw [isAlpha_iff_toNat] at h
  simp only [Char.reduceToNat] at h
  simp [isBlank]
  omega

theorem isBlank_of_isDigit {c : Char} (h : c.isDigit = true) : isBlank c = false := by
  rw [Char.isDigit_iff_toNat] at h
  simp only [Char.reduceToNat] at h
  simp [isBlank]
  omega

theorem Puzzle.IsVariable.compact_eq {puzzle : Puzzle} (wf : puzzle.WellFormed) {name : String}
    (h : puzzle.IsVariable name) : Text.compact name.toList = name.toList := by
  apply Text.compact_eq_self
  intro c hc
  cases h with
  | word hentry => exact isBlank_of_isAlpha ((wf.words _ hentry).2 c hc)
  | bracket hfamily hrange =>
      simp only [String.toList_ofList, List.mem_cons, List.not_mem_nil, or_false] at hc
      rcases hc with rfl | rfl | rfl | rfl
      · exact isBlank_of_isAlpha (wf.letters _ hfamily).1
      · decide
      · exact isBlank_of_isDigit (isDigit_of_isDistance ((isDistance_iff _).2 hrange))
      · decide

theorem Puzzle.IsNumber.compact_eq {puzzle : Puzzle} {digits : List Char}
    (h : puzzle.IsNumber digits) : Text.compact digits = digits :=
  Text.compact_eq_self fun c hc => isBlank_of_isDigit (h.2 c hc).1

/-! ### Parentheses -/

/-- The level of the grammar at which the left operand of an operator stands. -/
def Operator.leftLevel : Operator → Level
  | .add => .sum
  | .sub => .sum
  | .mul => .product

def Operator.rightLevel : Operator → Level
  | .add => .product
  | .sub => .product
  | .mul => .factor

namespace Expr

/-- The level of the grammar at which a tree is read without parentheses. -/
def level : Expr → Level
  | .number _ _ => .factor
  | .var _ _ => .factor
  | .binary .add _ _ => .sum
  | .binary .sub _ _ => .sum
  | .binary .mul _ _ => .product

theorem wrapsLeft_eq (operand : Expr) (op : Operator) :
    operand.wrapsLeft op = operand.level.groups op.leftLevel := by
  cases operand with
  | number value literal => cases op <;> rfl
  | var name rule => cases op <;> rfl
  | binary inner lhs rhs => cases op <;> cases inner <;> rfl

/-- On the right the text goes by the grammar as well, unless it leaves out parentheses
that the grammar demands. -/
theorem wrapsRight_eq {operand : Expr} {op : Operator}
    (h : operand.precedence? = some op.precedence → op = .sub) :
    operand.wrapsRight op = operand.level.groups op.rightLevel := by
  cases operand with
  | number value literal => cases op <;> rfl
  | var name rule => cases op <;> rfl
  | binary inner lhs rhs => cases op <;> cases inner <;> first | rfl | cases h rfl

theorem compact_parenthesize (wrap : Bool) (text : String) :
    Text.compact (parenthesize wrap text).toList =
      if wrap then '(' :: (Text.compact text.toList ++ [')']) else Text.compact text.toList := by
  cases wrap with
  | false => rfl
  | true =>
      simp only [parenthesize, if_true, String.toList_append, Text.compact_append]
      rfl

theorem compact_render_binary (op : Operator) (lhs rhs : Expr) :
    Text.compact (binary op lhs rhs).render.toList =
      Text.compact (parenthesize (lhs.wrapsLeft op) lhs.render).toList ++
        op.sign :: Text.compact (parenthesize (rhs.wrapsRight op) rhs.render).toList := by
  have hblank : Text.compact " ".toList = [] := by decide
  have hsign : Text.compact op.symbol.toList = [op.sign] := by cases op <;> decide
  simp only [render, String.toList_append, Text.compact_append, hblank, hsign,
    List.nil_append, List.append_assoc, List.singleton_append]

theorem text_phrase_binary (op : Operator) (lhs rhs : Expr) (level : Level) :
    ((binary op lhs rhs).phrase level).text =
      let text := (lhs.phrase op.leftLevel).text ++ op.sign :: (rhs.phrase op.rightLevel).text
      if (binary op lhs rhs).level.groups level then '(' :: (text ++ [')']) else text := by
  cases op <;> exact Phrase.text_raise ..

/-- Blanks apart, a left-associated tree is written as its phrase. -/
theorem text_phrase {puzzle : Puzzle} (wf : puzzle.WellFormed) {tree : Expr}
    (hadmitted : tree.Admitted puzzle) (hleft : tree.LeftAssociated) (level : Level) :
    (tree.phrase level).text =
      Text.compact (parenthesize (tree.level.groups level) tree.render).toList := by
  induction tree generalizing level with
  | number value literal =>
      rw [phrase, Phrase.text_raise, compact_parenthesize, render, hadmitted.1.compact_eq]
      rfl
  | var name rule =>
      rw [phrase, Phrase.text_raise, compact_parenthesize, render,
        hadmitted.isVariable.compact_eq wf]
      rfl
  | binary op lhs rhs ihl ihr =>
      have hlhs := ihl hadmitted.1 hleft.1 op.leftLevel
      have hrhs := ihr hadmitted.2 hleft.2.1 op.rightLevel
      -- both operands have the parentheses that the grammar demands
      rw [← wrapsLeft_eq] at hlhs
      rw [← wrapsRight_eq hleft.2.2] at hrhs
      rw [text_phrase_binary, compact_parenthesize, compact_render_binary, hlhs, hrhs]

end Expr

/-- Blanks apart, the text of a tree is that of the phrase of the regrouped tree. -/
theorem Expr.text_regroup {puzzle : Puzzle} (wf : puzzle.WellFormed) {tree : Expr}
    (h : tree.Admitted puzzle) :
    (tree.regroup.phrase .sum).text = Text.compact tree.render.toList := by
  rw [text_phrase wf h.regroup tree.leftAssociated_regroup, compact_parenthesize, render_regroup]
  cases tree.regroup.level <;> rfl

/-! ### Compiling the canonical text -/

/-- A short phrase of the puzzle compiles to the tree that it builds. -/
theorem Phrase.Builds.compile_eq {puzzle : Puzzle} (wf : puzzle.WellFormed) {phrase : Phrase .sum}
    {tree : Expr} (h : phrase.Builds puzzle tree) (hadmitted : phrase.Admitted puzzle)
    {tokens : List Token} (htokens : Lexeme.tokens phrase.lexemes = tokens)
    (hlimit : tokens.length ≤ maxTokens) {source : String}
    (htext : phrase.text = Text.compact source.toList) :
    Formula.compile puzzle source = .ok ⟨source, tokens, tree, puzzle⟩ := by
  have hcount : phrase.tokenCount ≤ maxTokens := by
    rwa [← phrase.length_tokens, htokens]
  have haccepted := phrase.accepted_text wf hadmitted hcount
  rw [htext] at haccepted
  exact (compile_eq_ok_iff ..).2 ⟨_, haccepted, parse_lexemes h, rfl, htokens.symm, rfl⟩

/-- What a formula is canonically written as is the text of a phrase: that of the regrouped
tree, which has the tokens of the formula. -/
theorem canonical_phrase {puzzle : Puzzle} (wf : puzzle.WellFormed) {source : String}
    {formula : Formula} (h : Formula.compile puzzle source = .ok formula) :
    let phrase := formula.tree.regroup.phrase .sum
    phrase.Admitted puzzle ∧ phrase.Builds puzzle formula.tree.regroup ∧
      Lexeme.tokens phrase.lexemes = formula.tokens ∧ formula.tokens.length ≤ maxTokens ∧
      phrase.text = Text.compact formula.canonical.toList := by
  obtain ⟨lexemes, haccepted, -, -, htokens, -⟩ := (compile_eq_ok_iff ..).1 h
  obtain ⟨whole, hwhole, rfl⟩ := haccepted.exists_admitted wf
  have hbuilds := builds_of_compile wf h hwhole haccepted.text_eq
  have hadmitted := hbuilds.admitted hwhole
  have hphrase := Expr.builds_phrase hadmitted.regroup .sum
  refine ⟨Expr.admitted_phrase hadmitted.regroup .sum, hphrase, ?_, ?_,
    Expr.text_regroup wf hadmitted⟩
  · rw [← hphrase.tokens_eq, Expr.tokens_regroup, hbuilds.tokens_eq, htokens]
  · rw [htokens]
    exact haccepted.limit

/-- The canonical text of a formula compiles to the regrouped formula. -/
theorem compile_canonical {puzzle : Puzzle} (wf : puzzle.WellFormed) {source : String}
    {formula : Formula} (h : Formula.compile puzzle source = .ok formula) :
    Formula.compile puzzle formula.canonical =
      .ok ⟨formula.canonical, formula.tokens, formula.tree.regroup, puzzle⟩ := by
  obtain ⟨hadmitted, hbuilds, htokens, hlimit, htext⟩ := canonical_phrase wf h
  exact hbuilds.compile_eq wf hadmitted htokens hlimit htext

/-- Formulas of one puzzle whose trees have the same values guess the same. -/
theorem Formula.guess_congr {formula other : Formula} (hpuzzle : formula.puzzle = other.puzzle)
    (htree : ∀ hats person, formula.tree.exact hats person = other.tree.exact hats person)
    (hats : List Hat) (person : Nat) : formula.guess hats person = other.guess hats person := by
  by_cases h : hats.length = other.puzzle.personCount ∧ person < other.puzzle.personCount
  · rw [other.guess_eq h.1 h.2, formula.guess_eq (hpuzzle ▸ h.1) (hpuzzle ▸ h.2), htree, hpuzzle]
  · rw [other.guess_eq_noGuess h, formula.guess_eq_noGuess (hpuzzle ▸ h)]

/-- The canonical text of a formula means the formula: it compiles to a formula with the same
tokens, the same canonical text and the same guess under all hats and for every person. -/
theorem canonical_means_same {puzzle : Puzzle} (wf : puzzle.WellFormed) {source : String}
    {formula : Formula} (h : Formula.compile puzzle source = .ok formula) :
    ∃ again, Formula.compile puzzle formula.canonical = .ok again ∧
      again.tokens = formula.tokens ∧ again.canonical = formula.canonical ∧
      ∀ hats person, again.guess hats person = formula.guess hats person := by
  refine ⟨_, compile_canonical wf h, rfl, formula.tree.render_regroup, ?_⟩
  obtain ⟨-, -, -, -, -, hpuzzle⟩ := (compile_eq_ok_iff ..).1 h
  exact Formula.guess_congr hpuzzle.symm formula.tree.exact_regroup

/-- Both the sum and the product on the right lose their parentheses. The text is read as
another tree, and the last person still guesses the same. -/
theorem canonical_regroups :
    Puzzle.ten.WellFormed ∧
      ∃ formula, Formula.compile .ten "i - (1+(2+3))×(4×all)" = .ok formula ∧
        formula.canonical = "i - (1 + 2 + 3) × 4 × all" ∧
        ∃ again, Formula.compile .ten formula.canonical = .ok again ∧
          again.tree ≠ formula.tree ∧ again.tokens = formula.tokens ∧
          again.guess [0, 1, 2, 3, 4, 5, 6, 7, 8, 9] 9 =
            formula.guess [0, 1, 2, 3, 4, 5, 6, 7, 8, 9] 9 := by
  have hcompile : Formula.compile .ten "i - (1+(2+3))×(4×all)" = .ok
      { source := "i - (1+(2+3))×(4×all)"
        tokens := [.variable "i", .operator .sub, .number "1", .operator .add, .number "2",
          .operator .add, .number "3", .operator .mul, .number "4", .operator .mul,
          .variable "all"]
        tree := .binary .sub (.var "i" .ownIndex)
          (.binary .mul
            (.binary .add (.number 1 "1") (.binary .add (.number 2 "2") (.number 3 "3")))
            (.binary .mul (.number 4 "4") (.var "all" .sumOfOthers)))
        puzzle := .ten } := by decide +kernel
  obtain ⟨again, hagain, htokens, -, hguess⟩ :=
    canonical_means_same Puzzle.wellFormed_ten hcompile
  refine ⟨Puzzle.wellFormed_ten, _, hcompile, by decide +kernel, again, hagain, ?_, htokens,
    hguess _ _⟩
  obtain rfl := Except.ok.inj ((compile_canonical Puzzle.wellFormed_ten hcompile).symm.trans hagain)
  decide

end HatCircle
