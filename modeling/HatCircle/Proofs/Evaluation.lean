import HatCircle.Formula.Basic
import HatCircle.Proofs.Meaning

/-!
# The value of a formula modulo the number of colours

Evaluation reduces each leaf and each intermediate result. For a person of the circle it
gives the exact value of the tree, reduced once (`Expr.evaluate_eq`), whatever the tree.

`Expr.evaluate64` is evaluation with 64-bit numbers: every result that has to be held on
the way, from the digits of the literals to the operators, is checked to be one, and the
first that is not ends it. For the tree of a phrase there is none
(`Phrase.Builds.evaluate64_eq`), provided that the places of neighbours can be computed.

Evaluation itself lets the places of neighbours wrap around, and so does the parser with the
products of directions and distances. Nothing of the kind happens in a puzzle that is `InReach`
(`Puzzle.InReach.fits64`), nor on the way to a leaf where these products have 64 bits
(`Puzzle.DistancesFit64.operand64_eq`).
-/

namespace HatCircle

/-! ### Reduction -/

theorem modulus_le (base : UInt8) : Puzzle.modulus base ≤ 255 := by
  have := base.toNat_lt
  unfold Puzzle.modulus
  omega

theorem emod_modulus_bounds (base : UInt8) (value : Int) :
    0 ≤ value % Puzzle.modulus base ∧ value % Puzzle.modulus base < 255 := by
  have hpos := modulus_pos base
  have hle := modulus_le base
  have hlt := Int.emod_lt_of_pos value hpos
  exact ⟨Int.emod_nonneg value (Int.ne_of_gt hpos), by omega⟩

theorem toNat_normalize (base : UInt8) (value : Int) :
    ((normalize base value).toNat : Int) = value % Puzzle.modulus base := by
  have hbounds := emod_modulus_bounds base value
  unfold normalize
  have hsize : (value % Puzzle.modulus base).toNat < UInt8.size := by
    have : UInt8.size = 256 := rfl
    omega
  rw [UInt8.toNat_ofNat_of_lt' hsize]
  omega

theorem normalize_lt {base : UInt8} (hbase : 1 ≤ base.toNat) (value : Int) :
    normalize base value < base := by
  have hvalue := toNat_normalize base value
  have hlt := Int.emod_lt_of_pos value (modulus_pos base)
  rw [modulus_eq hbase] at hvalue hlt
  rw [UInt8.lt_iff_toNat_lt]
  omega

/-- The reduction of a guess as it is usually written, with remainders that take the sign
of what is divided. -/
theorem tmod_tmod_eq_emod (value : Int) {base : Int} (h : 0 < base) :
    (value.tmod base + base).tmod base = value % base := by
  have hlt : -base < value.tmod base := Int.lt_tmod_of_pos value h
  have hnonneg : 0 ≤ value.tmod base + base := by omega
  rw [Int.tmod_eq_emod_of_nonneg hnonneg, Int.add_emod_right, Int.tmod_def,
    Int.sub_mul_emod_self_left]

/-- An operator applied to reduced operands gives its exact result, reduced. -/
theorem Operator.apply_emod (op : Operator) (base : UInt8) (l r : Int) :
    op.apply base (l % Puzzle.modulus base) (r % Puzzle.modulus base) =
      op.exact l r % Puzzle.modulus base :=
  op.exact_emod (Int.emod_emod_of_dvd l (dvd_refl (Puzzle.modulus base)))
    (Int.emod_emod_of_dvd r (dvd_refl (Puzzle.modulus base)))

/-! ### Evaluation -/

namespace Expr

/-- For a person of the circle every tree has a value: its exact one, reduced. -/
theorem evaluate_eq (base : UInt8) {hats : List Hat} {person : Nat} (h : person < hats.length)
    (tree : Expr) :
    tree.evaluate base hats person =
      .ok (tree.exact hats person % Puzzle.modulus base) := by
  induction tree with
  | number value literal => rw [evaluate, toNat_normalize, exact]
  | var name rule =>
      rw [evaluate, rule.resolve_eq h]
      simp only [toNat_normalize, exact]
  | binary op lhs rhs ihl ihr =>
      rw [evaluate, ihl, ihr]
      simp only [bind, Except.bind, pure, Except.pure, Operator.apply_emod, exact]

theorem evaluateDigit_eq {puzzle : Puzzle} {hats : List Hat} {person : Nat}
    (hlength : hats.length = puzzle.personCount) (hperson : person < puzzle.personCount)
    (tree : Expr) :
    tree.evaluateDigit puzzle hats person =
      .ok (normalize puzzle.base (tree.exact hats person)) := by
  have hvalue := tree.evaluate_eq puzzle.base (hlength ▸ hperson : person < hats.length)
  rw [evaluateDigit, if_neg (by simpa using hlength), if_neg (by omega), hvalue]
  simp [Except.map, normalize]

end Expr

/-- The guess of a person of the circle is the exact value of the tree, reduced. -/
theorem Formula.guess_eq (formula : Formula) {hats : List Hat} {person : Nat}
    (hlength : hats.length = formula.puzzle.personCount)
    (hperson : person < formula.puzzle.personCount) :
    formula.guess hats person =
      formula.tree.exact hats person % Puzzle.modulus formula.puzzle.base := by
  rw [guess, guess?, Expr.evaluateDigit_eq hlength hperson]
  exact toNat_normalize ..

/-- There is no guess for hats that are not one for each person, or for a person outside
the circle. -/
theorem Formula.guess_eq_noGuess (formula : Formula) {hats : List Hat} {person : Nat}
    (h : ¬ (hats.length = formula.puzzle.personCount ∧ person < formula.puzzle.personCount)) :
    formula.guess hats person = noGuess := by
  rw [guess, guess?, Expr.evaluateDigit]
  by_cases hlength : hats.length = formula.puzzle.personCount
  · have hperson : formula.puzzle.personCount ≤ person := by
      by_contra hlt
      exact h ⟨hlength, by omega⟩
    rw [if_neg (by simpa using hlength), if_pos hperson]
  · rw [if_pos hlength]

/-! ### Evaluation with 64-bit numbers -/

/-- The number, if it has 64 bits. -/
def fit64 (value : Int) : Option Int :=
  if InRange64 value then some value else none

theorem fit64_eq {value : Int} (h : InRange64 value) : fit64 value = some value :=
  if_pos h

theorem InRange64.of_small {value : Int} (h : -100000 ≤ value ∧ value ≤ 100000) :
    InRange64 value := by
  unfold InRange64
  omega

/-- One more digit of a literal: the value so far is shifted, the digit is added and the
sum is reduced. -/
def shiftIn64 (base : UInt8) (value : Int) (digit : Nat) : Option Int := do
  let shifted ← fit64 (value * 10)
  let sum ← fit64 (shifted + digit)
  return sum % Puzzle.modulus base

def reduceLiteral64 (base : UInt8) (digits : List Char) : Option Int :=
  (digits.filterMap Numeral.digit?).foldlM (shiftIn64 base) 0

def Rule.resolve64 (rule : Rule) (person : Nat) (hats : List Hat) : Option Int :=
  match rule with
  | .ownIndex => fit64 person
  | .sumOfOthers => (hats.eraseIdx person).foldlM (fun sum hat => fit64 (sum + hat.toNat)) 0
  | .neighbor offset => do
    let count ← fit64 hats.length
    let origin ← fit64 person
    let offset ← fit64 offset
    let place ← fit64 (origin + offset)
    hats[(place % count).toNat]?.map fun hat => (hat.toNat : Int)

def Operator.apply64 (op : Operator) (base : UInt8) (l r : Int) : Option Int := do
  let result ← fit64 (op.exact l r)
  return result % Puzzle.modulus base

/-- The value of a tree with 64-bit numbers. Literals are read again from their digits. -/
def Expr.evaluate64 (base : UInt8) (hats : List Hat) (person : Nat) : Expr → Option Int
  | .number _ literal => do
    let value ← reduceLiteral64 base literal.toList
    return value % Puzzle.modulus base
  | .var _ rule => do
    let value ← rule.resolve64 person hats
    return value % Puzzle.modulus base
  | .binary op lhs rhs => do
    let l ← lhs.evaluate64 base hats person
    let r ← rhs.evaluate64 base hats person
    op.apply64 base l r

/-- The hats can be counted and summed in 64 bits, and so can the places of the neighbours
that the variables of the puzzle look for. -/
structure Puzzle.Fits64 (puzzle : Puzzle) (hats : List Hat) (person : Nat) : Prop where
  count : (hats.length : Int) < 2 ^ 63
  sum : (hatSum hats : Int) < 2 ^ 63
  offsets : ∀ name offset, puzzle.Declares name (.neighbor offset) →
    InRange64 offset ∧ InRange64 (person + offset)

theorem hatSum_le (hats : List Hat) : hatSum hats ≤ 255 * hats.length := by
  induction hats with
  | nil => simp [hatSum]
  | cons hat hats ih =>
      have := hat.toNat_lt
      rw [hatSum, List.length_cons]
      omega

theorem shiftIn64_eq (base : UInt8) {value : Int} (h : 0 ≤ value ∧ value < 255) {digit : Nat}
    (hdigit : digit < 10) :
    shiftIn64 base value digit = some ((value * 10 + digit) % Puzzle.modulus base) := by
  have hshifted : InRange64 (value * 10) := .of_small (by omega)
  have hsum : InRange64 (value * 10 + digit) := .of_small (by omega)
  simp only [shiftIn64, fit64_eq hshifted, fit64_eq hsum, Option.bind_eq_bind, Option.bind_some,
    Option.pure_def]

theorem digit?_lt {c : Char} {digit : Nat} (h : Numeral.digit? c = some digit) : digit < 10 := by
  unfold Numeral.digit? at h
  split at h
  · rename_i hc
    obtain rfl := Option.some.inj h
    have hrange := Char.isDigit_iff_toNat.1 hc
    simp at hrange ⊢
    omega
  · cases h

theorem foldlM_shiftIn64 (base : UInt8) {digits : List Nat} (h : ∀ digit ∈ digits, digit < 10)
    {value : Int} (hvalue : 0 ≤ value ∧ value < 255) :
    digits.foldlM (shiftIn64 base) value =
      some (digits.foldl (fun (value : Int) (digit : Nat) =>
        (value * 10 + digit) % Puzzle.modulus base) value) := by
  induction digits generalizing value with
  | nil => rfl
  | cons digit digits ih =>
      rw [List.foldlM_cons, shiftIn64_eq base hvalue (h digit (by simp)), List.foldl_cons]
      exact ih (fun other hother => h other (by simp [hother])) (emod_modulus_bounds ..)

theorem reduceLiteral64_eq (base : UInt8) (digits : List Char) :
    reduceLiteral64 base digits = some (reduceLiteral base digits) := by
  refine foldlM_shiftIn64 base ?_ (by decide)
  intro digit hmem
  obtain ⟨c, -, hc⟩ := List.mem_filterMap.1 hmem
  exact digit?_lt hc

theorem foldlM_sum64 (hats : List Hat) {start : Int} (hstart : 0 ≤ start)
    (hsum : start + hatSum hats < 2 ^ 63) :
    hats.foldlM (fun sum hat => fit64 (sum + hat.toNat)) start =
      some (start + hatSum hats) := by
  induction hats generalizing start with
  | nil => simp [hatSum]
  | cons hat hats ih =>
      rw [hatSum] at hsum
      have hfits : InRange64 (start + hat.toNat) := by
        unfold InRange64
        omega
      rw [List.foldlM_cons, fit64_eq hfits]
      simp only [Option.bind_eq_bind, Option.bind_some]
      rw [ih (by omega) (by omega), hatSum]
      congr 1
      omega

/-- No operator makes a number that is too large out of two colours. -/
theorem Operator.inRange64_exact (op : Operator) {l r : Int} (hl : 0 ≤ l ∧ l < 255)
    (hr : 0 ≤ r ∧ r < 255) : InRange64 (op.exact l r) := by
  apply InRange64.of_small
  cases op with
  | add => simp only [exact]; omega
  | sub => simp only [exact]; omega
  | mul =>
      have h₁ : 0 ≤ l * r := Int.mul_nonneg hl.1 hr.1
      have h₂ : l * r ≤ 255 * 255 := Int.mul_le_mul hl.2.le hr.2.le hr.1 (by decide)
      simp only [exact]
      omega

theorem Operator.apply64_eq (op : Operator) (base : UInt8) {l r : Int}
    (hl : 0 ≤ l ∧ l < 255) (hr : 0 ≤ r ∧ r < 255) :
    op.apply64 base l r = some (op.apply base l r) := by
  simp only [apply64, fit64_eq (op.inRange64_exact hl hr), Option.bind_eq_bind,
    Option.bind_some, Option.pure_def, apply]

section Fits

variable {puzzle : Puzzle} {hats : List Hat} {person : Nat}

/-- Whatever the rule has to hold fits in 64 bits: the sum of the hats, or the place of the
neighbour. -/
def Rule.Fits64 (hats : List Hat) (person : Nat) : Rule → Prop
  | .ownIndex => True
  | .sumOfOthers => (hatSum hats : Int) < 2 ^ 63
  | .neighbor offset => InRange64 offset ∧ InRange64 (person + offset)

instance (hats : List Hat) (person : Nat) : (rule : Rule) → Decidable (rule.Fits64 hats person)
  | .ownIndex => inferInstanceAs (Decidable True)
  | .sumOfOthers => inferInstanceAs (Decidable ((hatSum hats : Int) < 2 ^ 63))
  | .neighbor offset =>
    inferInstanceAs (Decidable (InRange64 offset ∧ InRange64 (person + offset)))

/-- If its numbers fit, and the hats can be counted, the rule is worked out in 64 bits. -/
theorem Rule.Fits64.resolve64_eq {rule : Rule} (h : rule.Fits64 hats person)
    (hcount : (hats.length : Int) < 2 ^ 63) (hperson : person < hats.length) :
    rule.resolve64 person hats = some (rule.meaning hats person) := by
  have horigin : InRange64 person := by
    unfold InRange64
    omega
  rw [← rule.resolve_eq hperson, Rule.resolve.eq_def, if_pos hperson]
  cases rule with
  | ownIndex => rw [Rule.resolve64, fit64_eq horigin]
  | sumOfOthers =>
      have hsum : (hatSum hats : Int) < 2 ^ 63 := h
      have hothers := hatSum_eraseIdx hperson
      have hfold := foldlM_sum64 (hats.eraseIdx person) (le_refl 0) (by omega)
      rw [Rule.resolve64, hfold, Int.zero_add]
  | neighbor offset =>
      obtain ⟨hoffset, hplace⟩ := h
      have hlength : InRange64 hats.length := by
        unfold InRange64
        omega
      simp only [Rule.resolve64, fit64_eq hlength, fit64_eq horigin, fit64_eq hoffset,
        fit64_eq hplace, Option.bind_eq_bind, Option.bind_some, Rule.seat, wrap64_eq hplace]

theorem Puzzle.Fits64.rule (hfits : puzzle.Fits64 hats person) {name : String} {rule : Rule}
    (h : puzzle.Declares name rule) : rule.Fits64 hats person := by
  cases rule with
  | ownIndex => trivial
  | sumOfOthers => exact hfits.sum
  | neighbor offset => exact hfits.offsets name offset h

/-- No number that is held on the way to the value of the tree of a phrase is too large
for 64 bits. -/
theorem Phrase.Builds.evaluate64_eq (hfits : puzzle.Fits64 hats person)
    (hperson : person < hats.length) {level : Level} {phrase : Phrase level} {tree : Expr}
    (h : Builds puzzle phrase tree) :
    tree.evaluate64 puzzle.base hats person =
      some (tree.exact hats person % Puzzle.modulus puzzle.base) := by
  have hbinary : ∀ (op : Operator) (l r : Int),
      op.apply64 puzzle.base (l % Puzzle.modulus puzzle.base)
        (r % Puzzle.modulus puzzle.base) =
      some (op.exact l r % Puzzle.modulus puzzle.base) := by
    intro op l r
    rw [op.apply64_eq _ (emod_modulus_bounds ..) (emod_modulus_bounds ..), op.apply_emod]
  induction h with
  | number hrun =>
      rw [Expr.evaluate64, reduceLiteral64_eq, reduceLiteral_eq _ hrun]
      rfl
  | «variable» hdeclared =>
      rw [Expr.evaluate64, (hfits.rule hdeclared).resolve64_eq hfits.count hperson]
      rfl
  | group _ ih => exact ih
  | factor _ ih => exact ih
  | times _ _ ihl ihr =>
      rw [Expr.evaluate64, ihl, ihr]
      exact hbinary ..
  | product _ ih => exact ih
  | join _ _ ihl ihr =>
      rw [Expr.evaluate64, ihl, ihr]
      exact hbinary ..

end Fits

/-! ### Neighbours within reach -/

/-- In a circle of `count`, the rule leads everybody to a neighbour without a number that is too
large for 64 bits. -/
def Rule.InReach (count : Nat) : Rule → Prop
  | .neighbor offset => InRange64 offset ∧ ∀ person < count, InRange64 (person + offset)
  | _ => True

instance (count : Nat) : (rule : Rule) → Decidable (rule.InReach count)
  | .ownIndex => inferInstanceAs (Decidable True)
  | .sumOfOthers => inferInstanceAs (Decidable True)
  | .neighbor offset => inferInstanceAs
    (Decidable (InRange64 offset ∧ ∀ person < count, InRange64 (person + offset)))

/-- The products of directions and distances have 64 bits, and so have the sums of places and
offsets. -/
structure Puzzle.InReach (puzzle : Puzzle) : Prop where
  words : ∀ entry ∈ puzzle.vocabulary, entry.rule.InReach puzzle.personCount
  distances : ∀ family ∈ puzzle.brackets, ∀ distance : Nat, 1 ≤ distance → distance ≤ 9 →
    (Rule.neighbor (family.direction * distance)).InReach puzzle.personCount

/-- The numbers of the tree have 64 bits, and its variables lead everybody to a neighbour without
a number that is too large for them. -/
def Expr.InReach (count : Nat) : Expr → Prop
  | .number value _ => InRange64 value
  | .var _ rule => rule.InReach count
  | .binary _ lhs rhs => lhs.InReach count ∧ rhs.InReach count

instance Expr.decidableInReach (count : Nat) : (tree : Expr) → Decidable (tree.InReach count)
  | .number value _ => inferInstanceAs (Decidable (InRange64 value))
  | .var _ rule => inferInstanceAs (Decidable (rule.InReach count))
  | .binary _ lhs rhs =>
    @instDecidableAnd _ _ (lhs.decidableInReach count) (rhs.decidableInReach count)

section Reach

variable {puzzle : Puzzle} {hats : List Hat} {person count : Nat}

theorem BracketFamily.rule_eq {family : BracketFamily} {distance : Nat}
    (h : InRange64 (family.direction * distance)) :
    family.rule distance = .neighbor (family.direction * distance) := by
  rw [rule, wrap64_eq h]

theorem Puzzle.InReach.rule (h : puzzle.InReach) {name : String} {rule : Rule}
    (hdeclared : puzzle.Declares name rule) : rule.InReach puzzle.personCount := by
  rcases hdeclared.rule_cases with ⟨entry, hentry, rfl⟩ | ⟨family, hfamily, distance, hlow,
    hhigh, rfl⟩
  · exact h.words entry hentry
  · have hreach := h.distances family hfamily distance hlow hhigh
    rwa [BracketFamily.rule_eq hreach.1]

/-- In a puzzle with neighbours within reach, so are those of the trees of its phrases. -/
theorem Phrase.Builds.inReach (hreach : puzzle.InReach) {level : Level} {phrase : Phrase level}
    {tree : Expr} (h : Builds puzzle phrase tree) : tree.InReach puzzle.personCount := by
  induction h with
  | @number digits run =>
      have hbounds := emod_modulus_bounds puzzle.base (Numeral.value digits.toList)
      exact .of_small (by omega)
  | «variable» declared => exact hreach.rule declared
  | group _ ih => exact ih
  | factor _ ih => exact ih
  | times _ _ ihl ihr => exact ⟨ihl, ihr⟩
  | product _ ih => exact ih
  | join _ _ ihl ihr => exact ⟨ihl, ihr⟩

/-- Up to `2 ^ 55` hats, more than a memory holds, can be summed. -/
theorem hatSum_lt (h : hats.length ≤ 2 ^ 55) : (hatSum hats : Int) < 2 ^ 63 := by
  have hsum := hatSum_le hats
  omega

theorem Puzzle.InReach.fits64 (h : puzzle.InReach) (hlength : hats.length = puzzle.personCount)
    (hcount : puzzle.personCount ≤ 2 ^ 55) (hperson : person < puzzle.personCount) :
    puzzle.Fits64 hats person := by
  refine ⟨by omega, hatSum_lt (hlength ▸ hcount), ?_⟩
  intro name offset hdeclared
  obtain ⟨hoffset, hplaces⟩ := h.rule hdeclared
  exact ⟨hoffset, hplaces person hperson⟩

theorem Rule.inReach_of_small {offset : Int} (h : -9 ≤ offset ∧ offset ≤ 9) (hcount : count ≤ 10) :
    (Rule.neighbor offset).InReach count := by
  refine ⟨.of_small (by omega), fun person hperson => ?_⟩
  exact .of_small (by omega)

theorem Puzzle.inReach_ten : Puzzle.ten.InReach := by
  constructor
  · decide
  · intro family hfamily distance hlow hhigh
    apply Rule.inReach_of_small _ (by decide)
    simp only [ten, List.mem_cons, List.not_mem_nil, or_false] at hfamily
    rcases hfamily with rfl | rfl
    · simp only
      omega
    · simp only
      omega

theorem Puzzle.inReach_two : Puzzle.two.InReach := by
  constructor
  · decide
  · intro family hfamily
    cases hfamily

theorem Puzzle.fits64_ten (hlength : hats.length = 10) (hperson : person < 10) :
    Puzzle.ten.Fits64 hats person :=
  inReach_ten.fits64 hlength (by decide) hperson

end Reach

/-! ### Leaves with 64-bit numbers -/

/-- The products of directions and distances have 64 bits. -/
def Puzzle.DistancesFit64 (puzzle : Puzzle) : Prop :=
  ∀ family ∈ puzzle.brackets, ∀ distance : Nat, 1 ≤ distance → distance ≤ 9 →
    InRange64 (family.direction * distance)

/-- What a variable stands for, with a product that is checked to have 64 bits. -/
def Puzzle.ruleOf64? (puzzle : Puzzle) (text : String) : Option (Option Rule) :=
  match puzzle.named? text with
  | some rule => some (some rule)
  | none =>
    match text.toList with
    | [letter, '[', distance, ']'] =>
      if isDistance distance then
        match puzzle.family? letter, Numeral.digit? distance with
        | some family, some places =>
          (fit64 (family.direction * places)).map fun offset => some (.neighbor offset)
        | _, _ => some none
      else some none
    | _ => some none

/-- The leaf that the parser makes of a token, with 64-bit numbers. There is none if a number
that has to be held on the way is too large. -/
def Token.operand64 (puzzle : Puzzle) : Token → Option (Except ParseError Expr)
  | .number digits =>
    (reduceLiteral64 puzzle.base digits.toList).map fun value => .ok (.number value digits)
  | .variable name => (puzzle.ruleOf64? name).map fun
    | some rule => .ok (.var name rule)
    | none => .error (.unknownVariable name)
  | .operator op => some (.error (.unexpected op.symbol))

section Leaves

variable {puzzle : Puzzle}

theorem Puzzle.DistancesFit64.ruleOf64?_eq (h : puzzle.DistancesFit64) (text : String) :
    puzzle.ruleOf64? text = some (puzzle.ruleOf? text) := by
  unfold Puzzle.ruleOf64? Puzzle.ruleOf?
  cases puzzle.named? text with
  | some rule => rfl
  | none =>
      by_cases hshape : ∃ letter distance, text.toList = [letter, '[', distance, ']']
      · obtain ⟨letter, distance, hchars⟩ := hshape
        by_cases hdistance : isDistance distance = true
        · simp only [hchars, hdistance, if_true, digit?_of_isDistance hdistance]
          cases hfamily : puzzle.family? letter with
          | none => rfl
          | some family =>
              obtain ⟨-, before, after, htable, -⟩ := (family?_eq_some_iff ..).1 hfamily
              obtain ⟨hlow, hhigh⟩ := distance_bounds ((isDistance_iff distance).1 hdistance)
              have hproduct := h family (by simp [htable]) _ hlow hhigh
              simp only [fit64_eq hproduct, Option.map_some, Option.bind_eq_bind, Option.bind_some,
                BracketFamily.rule_eq hproduct]
              rfl
        · simp only [hchars, hdistance, Bool.false_eq_true, if_false]
      · have hother : ∀ letter distance, text.toList = [letter, '[', distance, ']'] → False :=
          fun letter distance hchars => hshape ⟨letter, distance, hchars⟩
        simp only

/-- As long as the products have 64 bits, so has every number on the way to a leaf. -/
theorem Puzzle.DistancesFit64.operand64_eq (h : puzzle.DistancesFit64) (token : Token) :
    token.operand64 puzzle = some (token.operand puzzle) := by
  cases token with
  | number digits => rw [Token.operand64, reduceLiteral64_eq, Option.map_some, Token.operand]
  | «variable» name =>
      cases hrule : puzzle.ruleOf? name <;>
        simp only [Token.operand64, Token.operand, h.ruleOf64?_eq, hrule, Option.map_some]
  | operator op => rfl

end Leaves

end HatCircle
