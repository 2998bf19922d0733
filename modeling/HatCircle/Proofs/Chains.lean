import HatCircle.Proofs.Canonical
import HatCircle.Proofs.Descent

/-!
# Formulas as chains

The grammar of formulas, written as it is usually read: a formula is a term with any number of
further terms, each behind a `+` or a `-`; a term is a factor with any number of further
factors, each behind a `×`; a factor is a number, a variable or a formula in parentheses.
`Derives` says that some lexemes are derived in this way and gives the tree of the derivation.
The further items of a chain are hung into the tree one after the other, from the left.

A chain can be taken apart from either end, so these are the lexemes and the trees of the
phrases (`derives_iff`). The parser accepts what is derived, and nothing else, and returns the
tree of the derivation (`parse_derives`); its tree has the tokens of the lexemes from left to
right, and what stands at its leaves is what the puzzle says. It needs no more than three
calls for each lexeme, whether it accepts the lexemes or not.
-/

namespace HatCircle

/-! ### Derivations with chains -/

/-- A further item of a chain: the operator before it, its lexemes and its tree. -/
structure Link where
  op : Operator
  lexemes : List Lexeme
  tree : Expr

namespace Link

def spelled (link : Link) : List Lexeme :=
  .token (.operator link.op) :: link.lexemes

/-- Hangs a further item into the tree of a chain. -/
def hang (chain : Expr) (link : Link) : Expr :=
  .binary link.op chain link.tree

end Link

/-- The lexemes are derived from a level of the grammar, and the derivation has this tree. -/
inductive Derives (puzzle : Puzzle) : Level → List Lexeme → Expr → Prop where
  | sum {first : List Lexeme} {tree : Expr} (links : List Link)
      (head : Derives puzzle .product first tree)
      (joins : ∀ link ∈ links, link.op = .add ∨ link.op = .sub)
      (items : ∀ link ∈ links, Derives puzzle .product link.lexemes link.tree) :
      Derives puzzle .sum (first ++ links.flatMap Link.spelled) (links.foldl Link.hang tree)
  | product {first : List Lexeme} {tree : Expr} (links : List Link)
      (head : Derives puzzle .factor first tree)
      (joins : ∀ link ∈ links, link.op = .mul)
      (items : ∀ link ∈ links, Derives puzzle .factor link.lexemes link.tree) :
      Derives puzzle .product (first ++ links.flatMap Link.spelled) (links.foldl Link.hang tree)
  | number {digits : String} (run : ∀ c ∈ digits.toList, c.isDigit = true) :
      Derives puzzle .factor [.token (.number digits)]
        (.number (Numeral.value digits.toList % Puzzle.modulus puzzle.base) digits)
  | variable {name : String} {rule : Rule} (declared : puzzle.Declares name rule) :
      Derives puzzle .factor [.token (.variable name)] (.var name rule)
  | group {inner : List Lexeme} {tree : Expr} (derived : Derives puzzle .sum inner tree) :
      Derives puzzle .factor (.opening :: (inner ++ [.closing])) tree

/-! ### Chains and phrases -/

section Phrases

variable {puzzle : Puzzle}

theorem isAdditive_iff (op : Operator) : op.isAdditive = true ↔ op = .add ∨ op = .sub := by
  cases op <;> simp [Operator.isAdditive]

/-- Items that follow a phrase make it longer, one by one. -/
theorem Chain.exists_phrase_of_links {level item : Level} (chain : Chain puzzle level item)
    {links : List Link} (hjoins : ∀ link ∈ links, chain.joins link.op)
    (hitems : ∀ link ∈ links, ∃ phrase : Phrase item,
      phrase.lexemes = link.lexemes ∧ phrase.Builds puzzle link.tree)
    {lhs : Phrase level} {left : Expr} (hlhs : lhs.Builds puzzle left) :
    ∃ phrase : Phrase level, phrase.lexemes = lhs.lexemes ++ links.flatMap Link.spelled ∧
      phrase.Builds puzzle (links.foldl Link.hang left) := by
  induction links generalizing lhs left with
  | nil => exact ⟨lhs, by simp, hlhs⟩
  | cons link links ih =>
      have hop := hjoins link (by simp)
      obtain ⟨rhs, hspelled, hrhs⟩ := hitems link (by simp)
      have hjoins' : ∀ other ∈ links, chain.joins other.op := by
        intro other hother
        exact hjoins other (by simp [hother])
      have hitems' : ∀ other ∈ links, ∃ phrase : Phrase item,
          phrase.lexemes = other.lexemes ∧ phrase.Builds puzzle other.tree := by
        intro other hother
        exact hitems other (by simp [hother])
      obtain ⟨phrase, hphrase, hbuilds⟩ := ih hjoins' hitems' (chain.builds_attach hop hlhs hrhs)
      refine ⟨phrase, ?_, hbuilds⟩
      rw [hphrase, chain.lexemes_attach lhs link.op hop rhs, hspelled, List.flatMap_cons,
        Link.spelled, List.append_assoc]

theorem Derives.exists_phrase {level : Level} {lexemes : List Lexeme} {tree : Expr}
    (h : Derives puzzle level lexemes tree) :
    ∃ phrase : Phrase level, phrase.lexemes = lexemes ∧ phrase.Builds puzzle tree := by
  induction h with
  | sum links _ joins _ ihhead ihitems =>
      obtain ⟨body, rfl, hbody⟩ := ihhead
      apply (Chain.sums puzzle).exists_phrase_of_links _ ihitems (.product hbody)
      intro link hlink
      exact (isAdditive_iff link.op).2 (joins link hlink)
  | product links _ joins _ ihhead ihitems =>
      obtain ⟨body, rfl, hbody⟩ := ihhead
      exact (Chain.products puzzle).exists_phrase_of_links joins ihitems (.factor hbody)
  | number run => exact ⟨.number _, rfl, .number run⟩
  | «variable» declared => exact ⟨.variable _, rfl, .variable declared⟩
  | group _ ih =>
      obtain ⟨inner, rfl, hinner⟩ := ih
      exact ⟨.group inner, rfl, .group hinner⟩

theorem Derives.times {first second : List Lexeme} {left right : Expr}
    (hleft : Derives puzzle .product first left) (hright : Derives puzzle .factor second right) :
    Derives puzzle .product (first ++ .token (.operator .mul) :: second)
      (.binary .mul left right) := by
  cases hleft with
  | @product body tree links head joins items =>
      have hjoins : ∀ link ∈ links ++ [⟨.mul, second, right⟩], link.op = .mul := by
        simpa [or_imp, forall_and] using joins
      have hitems : ∀ link ∈ links ++ [⟨.mul, second, right⟩],
          Derives puzzle .factor link.lexemes link.tree := by
        simpa [or_imp, forall_and] using ⟨items, hright⟩
      simpa [Link.spelled, Link.hang] using Derives.product _ head hjoins hitems

theorem Derives.join {first second : List Lexeme} {left right : Expr} {op : Operator}
    (hleft : Derives puzzle .sum first left) (hop : op = .add ∨ op = .sub)
    (hright : Derives puzzle .product second right) :
    Derives puzzle .sum (first ++ .token (.operator op) :: second) (.binary op left right) := by
  cases hleft with
  | @sum body tree links head joins items =>
      have hjoins : ∀ link ∈ links ++ [⟨op, second, right⟩], link.op = .add ∨ link.op = .sub := by
        simpa [or_imp, forall_and] using ⟨joins, hop⟩
      have hitems : ∀ link ∈ links ++ [⟨op, second, right⟩],
          Derives puzzle .product link.lexemes link.tree := by
        simpa [or_imp, forall_and] using ⟨items, hright⟩
      simpa [Link.spelled, Link.hang] using Derives.sum _ head hjoins hitems

theorem Phrase.Builds.derives {level : Level} {phrase : Phrase level} {tree : Expr}
    (h : phrase.Builds puzzle tree) : Derives puzzle level phrase.lexemes tree := by
  induction h with
  | number run => exact .number run
  | «variable» declared => exact .variable declared
  | group _ ih => exact .group ih
  | factor _ ih => simpa [lexemes] using Derives.product [] ih (by simp) (by simp)
  | times _ _ ihl ihr => exact ihl.times ihr
  | product _ ih => simpa [lexemes] using Derives.sum [] ih (by simp) (by simp)
  | @join lhs op additive rhs left right _ _ ihl ihr =>
      exact ihl.join ((isAdditive_iff op).1 additive) ihr

/-- What is derived with chains is what phrases spell, with the trees of the phrases. -/
theorem derives_iff {level : Level} {lexemes : List Lexeme} {tree : Expr} :
    Derives puzzle level lexemes tree ↔
      ∃ phrase : Phrase level, phrase.lexemes = lexemes ∧ phrase.Builds puzzle tree := by
  constructor
  · intro h
    exact h.exists_phrase
  · rintro ⟨phrase, rfl, hbuilds⟩
    exact hbuilds.derives

end Phrases

/-! ### Leaves -/

/-- The numbers of the tree are the values of their digits, reduced, and its variables carry
what the puzzle declares under their names. -/
def Expr.Labelled (puzzle : Puzzle) : Expr → Prop
  | .number value literal =>
    value = Numeral.value literal.toList % Puzzle.modulus puzzle.base
  | .var name rule => puzzle.Declares name rule
  | .binary _ lhs rhs => lhs.Labelled puzzle ∧ rhs.Labelled puzzle

theorem Phrase.Builds.labelled {puzzle : Puzzle} {level : Level} {phrase : Phrase level}
    {tree : Expr} (h : phrase.Builds puzzle tree) : tree.Labelled puzzle := by
  induction h with
  | number => rfl
  | «variable» declared => exact declared
  | group _ ih => exact ih
  | factor _ ih => exact ih
  | times _ _ ihl ihr => exact ⟨ihl, ihr⟩
  | product _ ih => exact ih
  | join _ _ ihl ihr => exact ⟨ihl, ihr⟩

/-! ### The parser -/

/-- Whatever the lexemes are, the parser is done within three calls for each lexeme, and three
more. It accepts the lexemes that are derived as a formula, and returns the tree of the
derivation: its tokens from left to right are those of the lexemes, and its leaves are what
the puzzle makes of them. All other lexemes are an error. As long as the products of directions
and distances have 64 bits, they are the exact ones, and no leaf wraps around on the way. -/
theorem parse_derives (puzzle : Puzzle) {lexemes : List Lexeme}
    (hruns : Lexeme.DigitRuns lexemes) :
    (∀ tree, parse puzzle lexemes = .ok tree ↔ Derives puzzle .sum lexemes tree) ∧
      (∀ tree, parse puzzle lexemes = .ok tree →
        tree.tokens = Lexeme.tokens lexemes ∧ tree.Labelled puzzle) ∧
      ((∃ error, parse puzzle lexemes = .error error) ↔
        ¬ ∃ tree, Derives puzzle .sum lexemes tree) ∧
      (∀ depth, 3 * lexemes.length + 3 ≤ depth →
        parseWithin puzzle depth lexemes = some (parse puzzle lexemes)) ∧
      (puzzle.DistancesFit64 →
        (∀ family ∈ puzzle.brackets, ∀ distance : Nat, 1 ≤ distance → distance ≤ 9 →
          family.rule distance = .neighbor (family.direction * distance)) ∧
        ∀ token : Token, token.operand64 puzzle = some (token.operand puzzle)) := by
  have hparse : ∀ tree, parse puzzle lexemes = .ok tree ↔ Derives puzzle .sum lexemes tree := by
    intro tree
    rw [parse_eq_ok_iff hruns, derives_iff]
  refine ⟨hparse, ?_, ?_, ?_, fun hfit => ⟨?_, hfit.operand64_eq⟩⟩
  · intro tree htree
    obtain ⟨phrase, rfl, hbuilds⟩ := (parse_eq_ok_iff hruns tree).1 htree
    exact ⟨hbuilds.tokens_eq, hbuilds.labelled⟩
  · simp only [← hparse]
    cases parse puzzle lexemes with
    | error error => simp
    | ok tree => simp
  · intro depth hdepth
    exact parseWithin_eq hdepth
  · intro family hfamily distance hlow hhigh
    exact BracketFamily.rule_eq (hfit family hfamily distance hlow hhigh)

/-- The lexemes of `9 - 3 - 1 × (i + 12)`. -/
def Lexeme.twoChains : List Lexeme :=
  [.token (.number "9"), .token (.operator .sub), .token (.number "3"), .token (.operator .sub),
    .token (.number "1"), .token (.operator .mul), .opening, .token (.variable "i"),
    .token (.operator .add), .token (.number "12"), .closing]

/-- The subtractions hang from the left, the parentheses leave no trace, and the last number is
reduced. Without the closing parenthesis nothing is derived. -/
theorem parse_derives_ten :
    Lexeme.DigitRuns Lexeme.twoChains ∧
      Derives .ten .sum Lexeme.twoChains
        (.binary .sub (.binary .sub (.number 9 "9") (.number 3 "3"))
          (.binary .mul (.number 1 "1") (.binary .add (.var "i" .ownIndex) (.number 2 "12")))) ∧
      Lexeme.DigitRuns Lexeme.twoChains.dropLast ∧
      (¬ ∃ tree, Derives .ten .sum Lexeme.twoChains.dropLast tree) ∧
      parseWithin .ten 33 Lexeme.twoChains.dropLast = some (.error .unclosed) ∧
      Puzzle.ten.DistancesFit64 ∧ (Token.variable "r[9]").operand64 .ten =
        some (.ok (.var "r[9]" (.neighbor (-9)))) := by
  have hruns : Lexeme.DigitRuns Lexeme.twoChains := by
    intro digits hmem
    simp only [Lexeme.twoChains, List.mem_cons, Lexeme.token.injEq, Token.number.injEq,
      reduceCtorEq, List.not_mem_nil, or_false, false_or] at hmem
    rcases hmem with rfl | rfl | rfl | rfl <;> exact List.all_eq_true.1 (by decide)
  have hruns' : Lexeme.DigitRuns Lexeme.twoChains.dropLast := by
    intro digits hmem
    exact hruns digits (List.dropLast_subset _ hmem)
  have hparse : parse .ten Lexeme.twoChains = .ok
      (.binary .sub (.binary .sub (.number 9 "9") (.number 3 "3"))
        (.binary .mul (.number 1 "1") (.binary .add (.var "i" .ownIndex) (.number 2 "12")))) := by
    decide +kernel
  have herror : parse .ten Lexeme.twoChains.dropLast = .error .unclosed := by decide +kernel
  obtain ⟨hderives, -, -, -, hexact⟩ := parse_derives .ten hruns
  obtain ⟨-, -, hnone, hwithin, -⟩ := parse_derives .ten hruns'
  have hfit : Puzzle.ten.DistancesFit64 := fun family hfamily distance hlow hhigh =>
    (Puzzle.inReach_ten.distances family hfamily distance hlow hhigh).1
  have hoperand : (Token.variable "r[9]").operand .ten = .ok (.var "r[9]" (.neighbor (-9))) := by
    decide +kernel
  refine ⟨hruns, (hderives _).1 hparse, hruns', hnone.1 ⟨_, herror⟩, ?_, hfit, ?_⟩
  · rw [hwithin 33 (by decide), herror]
  · rw [(hexact hfit).2, hoperand]

end HatCircle
