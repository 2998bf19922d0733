import HatCircle.Proofs.Pairing

/-!
# No parentheses to spare

The phrase of a tree has the fewest groups of all phrases that build the tree
(`Phrase.Builds.groupCount_le`): a group is put only where the level of the grammar demands one.

The canonical text of a formula is the text of such a phrase. A pair of parentheses less makes a
phrase with the same tokens and fewer groups, so it compiles, but to another tree
(`canonical_parentheses_needed`).
-/

namespace HatCircle

/-! ### The fewest groups -/

namespace Phrase

variable {puzzle : Puzzle} {level : Level}

theorem groupCount_raise {own : Level} (phrase : Phrase own) (level : Level) :
    (phrase.raise level).groupCount =
      phrase.groupCount + if own.groups level then 1 else 0 := by
  cases own <;> cases level <;> rfl

end Phrase

namespace Expr

/-- Where a tree stands matters to the parentheses around it alone. -/
theorem groupCount_phrase (tree : Expr) (level : Level) :
    (tree.phrase level).groupCount =
      (tree.phrase tree.level).groupCount + if tree.level.groups level then 1 else 0 := by
  cases tree with
  | number value literal => exact Phrase.groupCount_raise _ level
  | var name rule => exact Phrase.groupCount_raise _ level
  | binary op lhs rhs => cases op <;> exact Phrase.groupCount_raise _ level

theorem groupCount_sum_le (tree : Expr) :
    (tree.phrase .sum).groupCount ≤ (tree.phrase .product).groupCount := by
  rw [groupCount_phrase, tree.groupCount_phrase .product]
  cases tree.level <;> simp [Level.groups]

theorem groupCount_product_le (tree : Expr) :
    (tree.phrase .product).groupCount ≤ (tree.phrase .factor).groupCount := by
  rw [groupCount_phrase, tree.groupCount_phrase .factor]
  cases tree.level <;> simp [Level.groups]

theorem groupCount_factor_le (tree : Expr) :
    (tree.phrase .factor).groupCount ≤ (tree.phrase .sum).groupCount + 1 := by
  rw [groupCount_phrase, tree.groupCount_phrase .sum]
  cases tree.level <;> simp [Level.groups]

end Expr

/-- No phrase that builds a tree has fewer groups than the phrase of the tree. -/
theorem Phrase.Builds.groupCount_le {puzzle : Puzzle} {level : Level} {phrase : Phrase level}
    {tree : Expr} (h : phrase.Builds puzzle tree) :
    (tree.phrase level).groupCount ≤ phrase.groupCount := by
  induction h with
  | number => exact Nat.le_refl _
  | «variable» => exact Nat.le_refl _
  | group _ ih => exact (Expr.groupCount_factor_le _).trans (Nat.succ_le_succ ih)
  | factor _ ih => exact (Expr.groupCount_product_le _).trans ih
  | times _ _ ihl ihr => exact Nat.add_le_add ihl ihr
  | product _ ih => exact (Expr.groupCount_sum_le _).trans ih
  | @join _ op additive _ _ _ _ _ ihl ihr =>
      cases op with
      | add => exact Nat.add_le_add ihl ihr
      | sub => exact Nat.add_le_add ihl ihr
      | mul => cases additive

/-! ### A pair less -/

/-- A pair of parentheses in a text with blanks is one in the text without them. -/
theorem compact_pair {text front inner back : List Char}
    (h : text = front ++ '(' :: (inner ++ ')' :: back)) :
    Text.compact text = Text.compact front ++
      '(' :: (Text.compact inner ++ ')' :: Text.compact back) := by
  rw [h, Text.compact_append, Text.compact_parentheses]

/-- The canonical text has no parentheses to spare: without a matching pair of them it compiles
to the same tokens and to another tree. -/
theorem canonical_parentheses_needed {puzzle : Puzzle} (wf : puzzle.WellFormed) {source : String}
    {formula : Formula} (h : Formula.compile puzzle source = .ok formula) :
    ∃ again, Formula.compile puzzle formula.canonical = .ok again ∧
      ∀ front inner back, formula.canonical.toList = front ++ '(' :: (inner ++ ')' :: back) →
        Balanced inner →
          ∃ bare, Formula.compile puzzle (String.ofList (front ++ (inner ++ back))) = .ok bare ∧
            bare.tokens = again.tokens ∧ bare.tree ≠ again.tree := by
  refine ⟨_, compile_canonical wf h, fun front inner back hcanonical hinner => ?_⟩
  obtain ⟨hadmitted, -, htokens, hlimit, htext⟩ := canonical_phrase wf h
  rw [compact_pair hcanonical] at htext
  obtain ⟨bare, hbare, hbareText, hkept, hfewer⟩ :=
    Phrase.exists_ungrouped wf hadmitted htext hinner.compact
  obtain ⟨tree, htree⟩ := bare.exists_builds (bare.splits_text wf hbare).lexed
  have hsource : bare.text =
      Text.compact (String.ofList (front ++ (inner ++ back))).toList := by
    rw [hbareText, String.toList_ofList, Text.compact_append, Text.compact_append]
  refine ⟨_, htree.compile_eq wf hbare (hkept.trans htokens) hlimit hsource, rfl, ?_⟩
  rintro rfl
  -- the tree takes as many groups as its phrase has
  exact absurd htree.groupCount_le (Nat.not_le_of_lt hfewer)

/-- The parentheses around the whole text and around the last operand are to spare, and are not
written. Of the three pairs that are, the one in the middle is taken out. -/
theorem canonical_parentheses_needed_ten :
    Puzzle.ten.WellFormed ∧
      ∃ formula, Formula.compile .ten "((i-(1-(2+3)))×(all))" = .ok formula ∧
        formula.canonical.toList = "(i - ".toList ++ '(' :: ("1 - (2 + 3)".toList ++
          ')' :: ") × all".toList) ∧ Balanced "1 - (2 + 3)".toList ∧
        ∃ again bare, Formula.compile .ten "(i - (1 - (2 + 3))) × all" = .ok again ∧
          Formula.compile .ten "(i - 1 - (2 + 3)) × all" = .ok bare ∧
          bare.tokens = again.tokens ∧ bare.tree ≠ again.tree := by
  have hcompile : Formula.compile .ten "((i-(1-(2+3)))×(all))" = .ok
      { source := "((i-(1-(2+3)))×(all))"
        tokens := [.variable "i", .operator .sub, .number "1", .operator .sub, .number "2",
          .operator .add, .number "3", .operator .mul, .variable "all"]
        tree := .binary .mul
          (.binary .sub (.var "i" .ownIndex) (.binary .sub (.number 1 "1")
            (.binary .add (.number 2 "2") (.number 3 "3"))))
          (.var "all" .sumOfOthers)
        puzzle := .ten } := by decide +kernel
  have hbalanced : Balanced "1 - (2 + 3)".toList :=
    Grouped.balanced ((checkParentheses_eq_ok_iff _).1 (by decide +kernel))
  obtain ⟨again, hagain, hpairs⟩ :=
    canonical_parentheses_needed Puzzle.wellFormed_ten hcompile
  obtain ⟨bare, hbare, htokens, htree⟩ :=
    hpairs "(i - ".toList "1 - (2 + 3)".toList ") × all".toList (by decide +kernel) hbalanced
  exact ⟨Puzzle.wellFormed_ten, _, hcompile, by decide +kernel, hbalanced, again, bare,
    hagain, hbare, htokens, htree⟩

end HatCircle
