import Mathlib.Algebra.BigOperators.Intervals
import Mathlib.Algebra.BigOperators.Ring.Finset
import Mathlib.Data.Int.ModEq
import Mathlib.Data.List.GetD
import Mathlib.Data.Nat.Digits.Defs
import HatCircle.Formula.Eval
import HatCircle.Proofs.Lexing

/-!
# What formulas mean

The meaning of a phrase for a person under some hats is an exact integer: a number stands
for its decimal value, a variable for what the puzzle declares under its spelling, and the
operators are those of the integers (`Phrase.value`). Nothing here is reduced and nothing
refers to how a text is checked, parsed or evaluated.

The rest of the file relates this to trees. `Builds` gives the tree of a phrase, with its
chains associated to the left and its literals reduced; a tree has an exact value of its
own (`Expr.exact`), and the two values leave the same remainder (`Builds.exact_emod`).
-/

namespace HatCircle

/-! ### Numbers -/

/-- The number written by some decimal digits. -/
def Numeral.value (digits : List Char) : Nat :=
  Nat.ofDigits 10 (digits.reverse.map fun c => c.toNat - '0'.toNat)

theorem Numeral.value_append_digit (digits : List Char) (c : Char) :
    Numeral.value (digits ++ [c]) = Numeral.value digits * 10 + (c.toNat - '0'.toNat) := by
  simp only [Numeral.value, List.reverse_append, List.reverse_singleton, List.singleton_append,
    List.map_cons, Nat.ofDigits_cons]
  ring

theorem modulus_pos (base : UInt8) : 0 < Puzzle.modulus base := by
  unfold Puzzle.modulus
  omega

theorem modulus_eq {base : UInt8} (h : 1 ≤ base.toNat) : Puzzle.modulus base = base.toNat := by
  unfold Puzzle.modulus
  omega

/-- Reducing a literal after each digit reduces its value. -/
theorem reduceLiteral_eq (base : UInt8) {digits : List Char}
    (h : ∀ c ∈ digits, c.isDigit = true) :
    reduceLiteral base digits = (Numeral.value digits : Int) % Puzzle.modulus base := by
  unfold reduceLiteral
  induction digits using List.reverseRecOn with
  | nil => simp [Numeral.value]
  | append_singleton digits c ih =>
      have hdigits : ∀ d ∈ digits, d.isDigit = true := fun d hd => h d (by simp [hd])
      have hc : Numeral.digit? c = some (c.toNat - '0'.toNat) := by
        simp [Numeral.digit?, h c (by simp)]
      rw [List.filterMap_append, List.foldl_append, ih hdigits, List.filterMap_cons_some hc,
        Numeral.value_append_digit]
      push_cast
      simp [Int.add_emod, Int.mul_emod]

/-! ### Variables -/

/-- The number that a rule stands for. A neighbour is looked for all round the circle, so many
places further as 64 bits keep of the sum. -/
def Rule.meaning (hats : List Hat) (person : Nat) : Rule → Int
  | .ownIndex => person
  | .sumOfOthers =>
    ∑ other ∈ (Finset.range hats.length).erase person, ((hats.getD other 0).toNat : Int)
  | .neighbor offset => (hats.getD (wrap64 ((person : Int) + offset) % hats.length).toNat 0).toNat

/-- What the puzzle declares under a spelling: of the names and of the letters of a table
the first one counts, and names go before brackets. -/
inductive Puzzle.Declares (puzzle : Puzzle) : String → Rule → Prop where
  | word {before after : List NamedVariable} {entry : NamedVariable}
      (table : puzzle.vocabulary = before ++ entry :: after)
      (first : ∀ other ∈ before, other.name ≠ entry.name) :
      puzzle.Declares entry.name entry.rule
  | bracket {before after : List BracketFamily} {family : BracketFamily} {distance : Char}
      (table : puzzle.brackets = before ++ family :: after)
      (first : ∀ other ∈ before, other.letter ≠ family.letter)
      (range : '1' ≤ distance ∧ distance ≤ '9')
      (free : ∀ entry ∈ puzzle.vocabulary,
        entry.name ≠ String.ofList [family.letter, '[', distance, ']']) :
      puzzle.Declares (String.ofList [family.letter, '[', distance, ']'])
        (.neighbor (wrap64 (family.direction * (distance.toNat - '0'.toNat : Nat))))

/-- The numbers that a person reads for the variables of a puzzle. -/
structure Puzzle.Reading (puzzle : Puzzle) (hats : List Hat) (person : Nat) where
  value : String → Int
  declared : ∀ name rule, puzzle.Declares name rule → value name = rule.meaning hats person

theorem named?_eq_some_iff (puzzle : Puzzle) (name : String) (rule : Rule) :
    puzzle.named? name = some rule ↔ ∃ before entry after,
      puzzle.vocabulary = before ++ entry :: after ∧
        (∀ other ∈ before, other.name ≠ entry.name) ∧ entry.name = name ∧ entry.rule = rule := by
  simp only [Puzzle.named?, Option.map_eq_some_iff, List.find?_eq_some_iff_append, beq_iff_eq]
  constructor
  · rintro ⟨entry, ⟨rfl, before, after, htable, hfirst⟩, rfl⟩
    exact ⟨before, entry, after, htable, fun other h => by simpa using hfirst other h, rfl, rfl⟩
  · rintro ⟨before, entry, after, htable, hfirst, rfl, rfl⟩
    exact ⟨entry, ⟨rfl, before, after, htable, fun other h => by simpa using hfirst other h⟩, rfl⟩

theorem named?_eq_none_iff (puzzle : Puzzle) (name : String) :
    puzzle.named? name = none ↔ ∀ entry ∈ puzzle.vocabulary, entry.name ≠ name := by
  simp [Puzzle.named?]

theorem family?_eq_some_iff (puzzle : Puzzle) (letter : Char) (family : BracketFamily) :
    puzzle.family? letter = some family ↔ family.letter = letter ∧ ∃ before after,
      puzzle.brackets = before ++ family :: after ∧
        ∀ other ∈ before, other.letter ≠ family.letter := by
  simp only [Puzzle.family?, List.find?_eq_some_iff_append, beq_iff_eq]
  constructor
  · rintro ⟨rfl, before, after, htable, hfirst⟩
    exact ⟨rfl, before, after, htable, fun other h => by simpa using hfirst other h⟩
  · rintro ⟨rfl, before, after, htable, hfirst⟩
    exact ⟨rfl, before, after, htable, fun other h => by simpa using hfirst other h⟩

theorem digit?_of_isDistance {c : Char} (h : isDistance c = true) :
    Numeral.digit? c = some (c.toNat - '0'.toNat) := by
  simp [Numeral.digit?, isDigit_of_isDistance h]

theorem distance_bounds {c : Char} (h : '1' ≤ c ∧ c ≤ '9') :
    1 ≤ c.toNat - '0'.toNat ∧ c.toNat - '0'.toNat ≤ 9 := by
  have hlow : '1'.toNat ≤ c.toNat := h.1
  have hhigh : c.toNat ≤ '9'.toNat := h.2
  have hzero : '1'.toNat = '0'.toNat + 1 := rfl
  have hnine : '9'.toNat = '0'.toNat + 9 := rfl
  omega

/-- The parser finds what is declared. -/
theorem ruleOf?_eq_some_iff (puzzle : Puzzle) (name : String) (rule : Rule) :
    puzzle.ruleOf? name = some rule ↔ puzzle.Declares name rule := by
  unfold Puzzle.ruleOf?
  constructor
  · intro h
    split at h
    · rename_i found hfound
      obtain rfl := Option.some.inj h
      obtain ⟨before, entry, after, htable, hfirst, rfl, rfl⟩ := (named?_eq_some_iff ..).1 hfound
      exact .word htable hfirst
    · rename_i hfree
      rw [named?_eq_none_iff] at hfree
      split at h
      · rename_i letter distance htext
        split at h
        · rename_i hdistance
          rw [digit?_of_isDistance hdistance] at h
          obtain ⟨family, hfamily, hrule⟩ := Option.bind_eq_some_iff.1 h
          obtain rfl := Option.some.inj hrule
          obtain ⟨rfl, before, after, htable, hfirst⟩ := (family?_eq_some_iff ..).1 hfamily
          obtain rfl : name = String.ofList [family.letter, '[', distance, ']'] := by
            rw [← htext, String.ofList_toList]
          exact .bracket htable hfirst ((isDistance_iff _).1 hdistance) hfree
        · cases h
      · cases h
  · intro h
    cases h with
    | word htable hfirst =>
        rw [(named?_eq_some_iff ..).2 ⟨_, _, _, htable, hfirst, rfl, rfl⟩]
    | bracket htable hfirst hrange hfree =>
        have hdistance := (isDistance_iff _).2 hrange
        rw [(named?_eq_none_iff ..).2 hfree]
        simp only [String.toList_ofList, hdistance, if_true, digit?_of_isDistance hdistance,
          (family?_eq_some_iff ..).2 ⟨rfl, _, _, htable, hfirst⟩]
        rfl

/-- Every variable of the puzzle is declared. -/
theorem Puzzle.IsVariable.exists_declares {puzzle : Puzzle} {name : String}
    (h : puzzle.IsVariable name) : ∃ rule, puzzle.Declares name rule := by
  simp only [← ruleOf?_eq_some_iff, Puzzle.ruleOf?]
  cases hnamed : puzzle.named? name with
  | some rule => exact ⟨rule, rfl⟩
  | none =>
      rw [named?_eq_none_iff] at hnamed
      cases h with
      | word hentry => exact absurd rfl (hnamed _ hentry)
      | bracket hfamily hrange =>
          have hdistance := (isDistance_iff _).2 hrange
          obtain ⟨found, hfound⟩ : ∃ found, puzzle.family? _ = some found :=
            Option.isSome_iff_exists.1 ((isBracketLetter_iff ..).2 ⟨_, hfamily, rfl⟩)
          simp only [String.toList_ofList, hdistance, if_true, digit?_of_isDistance hdistance,
            hfound]
          exact ⟨_, rfl⟩

/-- Only variables are declared. -/
theorem Puzzle.Declares.isVariable {puzzle : Puzzle} {name : String} {rule : Rule}
    (h : puzzle.Declares name rule) : puzzle.IsVariable name := by
  cases h with
  | word htable _ => exact .word (by simp [htable])
  | bracket htable _ hrange _ => exact .bracket (by simp [htable]) hrange

/-- A declared rule is one of the table of names, or that of a bracket family for a distance. -/
theorem Puzzle.Declares.rule_cases {puzzle : Puzzle} {name : String} {rule : Rule}
    (h : puzzle.Declares name rule) :
    (∃ entry ∈ puzzle.vocabulary, entry.rule = rule) ∨
      ∃ family ∈ puzzle.brackets, ∃ distance : Nat, 1 ≤ distance ∧ distance ≤ 9 ∧
        rule = family.rule distance := by
  cases h with
  | word htable _ => exact .inl ⟨_, by simp [htable], rfl⟩
  | @bracket before after family distance htable _ hrange _ =>
      obtain ⟨hlow, hhigh⟩ := distance_bounds hrange
      exact .inr ⟨family, by simp [htable], _, hlow, hhigh, rfl⟩

/-- The reading by the tables of the puzzle; what is not declared is read as zero. -/
def Puzzle.reading (puzzle : Puzzle) (hats : List Hat) (person : Nat) :
    puzzle.Reading hats person where
  value name := ((puzzle.ruleOf? name).map (Rule.meaning hats person)).getD 0
  declared name rule h := by simp [(ruleOf?_eq_some_iff ..).2 h]

/-! ### Rules -/

theorem hatSum_eq_sum (hats : List Hat) :
    hatSum hats = ∑ other ∈ Finset.range hats.length, (hats.getD other 0).toNat := by
  induction hats with
  | nil => rfl
  | cons hat hats ih =>
      rw [hatSum, ih, List.length_cons, Finset.sum_range_succ']
      simp [Nat.add_comm]

theorem hatSum_eraseIdx {hats : List Hat} {person : Nat} (h : person < hats.length) :
    hatSum (hats.eraseIdx person) + (hats.getD person 0).toNat = hatSum hats := by
  induction hats generalizing person with
  | nil => cases h
  | cons hat hats ih =>
      cases person with
      | zero => simp [hatSum, Nat.add_comm]
      | succ person =>
          have hnext := ih (Nat.lt_of_succ_lt_succ h)
          simp only [List.eraseIdx_cons_succ, hatSum, List.getD_cons_succ]
          omega

theorem seat_lt {count : Nat} (person : Nat) (offset : Int) (h : 0 < count) :
    Rule.seat person offset count < count := by
  have hcount : (0 : Int) < count := by exact_mod_cast h
  have h₁ := Int.emod_nonneg (wrap64 (person + offset)) (Int.ne_of_gt hcount)
  have h₂ := Int.emod_lt_of_pos (wrap64 (person + offset)) hcount
  unfold Rule.seat
  omega

/-- A rule gives a person of the circle the number it stands for. -/
theorem Rule.resolve_eq (rule : Rule) {hats : List Hat} {person : Nat}
    (h : person < hats.length) :
    rule.resolve person hats = some (rule.meaning hats person) := by
  rw [Rule.resolve.eq_def, if_pos h]
  cases rule with
  | ownIndex => rfl
  | sumOfOthers =>
      have hsum := hatSum_eraseIdx h
      have hothers := Finset.sum_erase_add (Finset.range hats.length)
        (fun other => ((hats.getD other 0).toNat : Int)) (Finset.mem_range.2 h)
      rw [hatSum_eq_sum hats] at hsum
      simp only [meaning, Option.some.injEq]
      zify at hsum
      omega
  | neighbor offset =>
      have hseat := seat_lt person offset (Nat.zero_lt_of_lt h)
      simp only [meaning]
      rw [List.getElem?_eq_getElem hseat, Option.map_some, ← List.getD_eq_getElem _ 0 hseat]
      rfl

/-- The sum of the other hats, and the own hat, make up the sum of all. -/
theorem Rule.meaning_sumOfOthers {hats : List Hat} {person : Nat} {hat : Hat}
    (h : hats[person]? = some hat) :
    sumOfOthers.meaning hats person + hat.toNat = hatSum hats := by
  obtain ⟨hlt, rfl⟩ := List.getElem?_eq_some_iff.1 h
  have hresolve := sumOfOthers.resolve_eq hlt
  have hsum := hatSum_eraseIdx hlt
  rw [Rule.resolve, if_pos hlt] at hresolve
  rw [← Option.some.inj hresolve]
  rw [List.getD_eq_getElem _ _ hlt] at hsum
  exact_mod_cast hsum

/-! ### Phrases and trees -/

/-- The exact value of a phrase, where `reading` gives the numbers of the variables. -/
def Phrase.value (reading : String → Int) {level : Level} : Phrase level → Int
  | .number digits => Numeral.value digits.toList
  | .variable name => reading name
  | .group inner => inner.value reading
  | .factor body => body.value reading
  | .times lhs rhs => lhs.value reading * rhs.value reading
  | .product body => body.value reading
  | .join lhs op _ rhs => op.exact (lhs.value reading) (rhs.value reading)

/-- The exact value of a tree. -/
def Expr.exact (hats : List Hat) (person : Nat) : Expr → Int
  | .number value _ => value
  | .var _ rule => rule.meaning hats person
  | .binary op lhs rhs => op.exact (lhs.exact hats person) (rhs.exact hats person)

/-- The tree of a phrase. -/
inductive Phrase.Builds (puzzle : Puzzle) : {level : Level} → Phrase level → Expr → Prop where
  | number {digits : String} (run : ∀ c ∈ digits.toList, c.isDigit = true) :
      Builds puzzle (.number digits)
        (.number (Numeral.value digits.toList % Puzzle.modulus puzzle.base) digits)
  | variable {name : String} {rule : Rule} (declared : puzzle.Declares name rule) :
      Builds puzzle (.variable name) (.var name rule)
  | group {inner : Phrase .sum} {tree : Expr} (built : Builds puzzle inner tree) :
      Builds puzzle (.group inner) tree
  | factor {body : Phrase .factor} {tree : Expr} (built : Builds puzzle body tree) :
      Builds puzzle (.factor body) tree
  | times {lhs : Phrase .product} {rhs : Phrase .factor} {left right : Expr}
      (leftBuilt : Builds puzzle lhs left) (rightBuilt : Builds puzzle rhs right) :
      Builds puzzle (.times lhs rhs) (.binary .mul left right)
  | product {body : Phrase .product} {tree : Expr} (built : Builds puzzle body tree) :
      Builds puzzle (.product body) tree
  | join {lhs : Phrase .sum} {op : Operator} {additive : op.isAdditive = true}
      {rhs : Phrase .product} {left right : Expr}
      (leftBuilt : Builds puzzle lhs left) (rightBuilt : Builds puzzle rhs right) :
      Builds puzzle (.join lhs op additive rhs) (.binary op left right)

/-- A phrase whose lexemes the lexer can make has a tree. -/
theorem Phrase.exists_builds {puzzle : Puzzle} {level : Level} (phrase : Phrase level)
    (h : ∀ lexeme ∈ phrase.lexemes, lexeme.Lexed puzzle) : ∃ tree, Builds puzzle phrase tree := by
  induction phrase with
  | number digits =>
      have hlexed := h _ (List.mem_singleton_self _)
      exact ⟨_, .number hlexed.2⟩
  | «variable» name =>
      have hlexed := h _ (List.mem_singleton_self _)
      obtain ⟨rule, hrule⟩ := Puzzle.IsVariable.exists_declares hlexed
      exact ⟨_, .variable hrule⟩
  | group inner ih =>
      obtain ⟨tree, htree⟩ := ih fun l hl => h l (by simp [lexemes, hl])
      exact ⟨tree, .group htree⟩
  | factor body ih =>
      obtain ⟨tree, htree⟩ := ih h
      exact ⟨tree, .factor htree⟩
  | times lhs rhs ihl ihr =>
      obtain ⟨left, hleft⟩ := ihl fun l hl => h l (by simp [lexemes, hl])
      obtain ⟨right, hright⟩ := ihr fun l hl => h l (by simp [lexemes, hl])
      exact ⟨_, .times hleft hright⟩
  | product body ih =>
      obtain ⟨tree, htree⟩ := ih h
      exact ⟨tree, .product htree⟩
  | join lhs op additive rhs ihl ihr =>
      obtain ⟨left, hleft⟩ := ihl fun l hl => h l (by simp [lexemes, hl])
      obtain ⟨right, hright⟩ := ihr fun l hl => h l (by simp [lexemes, hl])
      exact ⟨_, .join hleft hright⟩

/-- Equal remainders of the operands give equal remainders of the results. -/
theorem Operator.exact_emod (op : Operator) {a a' b b' m : Int} (ha : a % m = a' % m)
    (hb : b % m = b' % m) : op.exact a b % m = op.exact a' b' % m := by
  cases op with
  | add => exact Int.ModEq.add ha hb
  | sub => exact Int.ModEq.sub ha hb
  | mul => exact Int.ModEq.mul ha hb

/-- A phrase and its tree have one value up to multiples of the number of colours. -/
theorem Phrase.Builds.exact_emod {puzzle : Puzzle} {hats : List Hat} {person : Nat}
    (reading : puzzle.Reading hats person) {level : Level} {phrase : Phrase level} {tree : Expr}
    (h : Builds puzzle phrase tree) :
    tree.exact hats person % Puzzle.modulus puzzle.base =
      phrase.value reading.value % Puzzle.modulus puzzle.base := by
  induction h with
  | number hrun => exact Int.emod_emod_of_dvd _ (dvd_refl _)
  | «variable» hdeclared => rw [Expr.exact, value, reading.declared _ _ hdeclared]
  | group _ ih => exact ih
  | factor _ ih => exact ih
  | times _ _ ihl ihr => exact Operator.exact_emod .mul ihl ihr
  | product _ ih => exact ih
  | join _ _ ihl ihr => exact Operator.exact_emod _ ihl ihr

end HatCircle
