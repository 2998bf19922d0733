import Mathlib.Algebra.Ring.Parity
import HatCircle.Proofs.TokenOrder

/-!
# Tokens by their places

Tokens alternate exactly if operands stand at the even places, operators at the odd ones, and the
number of tokens is odd (`Token.alternate_iff_inTurn`). An odd number below thirteen is below
twelve, so no list of `maxTokens` tokens is ever accepted.

A list that is refused breaks one of the rules first (`checkTokens_eq_error_iff`). There are six
ways to do so. None is about an operator that lacks an operand, since a list that gets past the
rules on its ends and on its neighbours has none.
-/

namespace HatCircle

namespace Token

/-! ### Neighbours -/

/-- The tokens `a` and `b` are neighbours in the list, and `a` is at the given place. -/
def Neighbours (tokens : List Token) (place : Nat) (a b : Token) : Prop :=
  tokens[place]? = some a ∧ tokens[place + 1]? = some b

/-- Of the neighbours in the list of which `p` holds, `a` and `b` are the leftmost. -/
def LeftmostPair (p : Token → Token → Prop) (tokens : List Token) (a b : Token) : Prop :=
  ∃ place, Neighbours tokens place a b ∧ p a b ∧
    ∀ earlier < place, ∀ c d, Neighbours tokens earlier c d → ¬ p c d

def BothOperators (a b : Token) : Prop := a.kind = .operator ∧ b.kind = .operator

def BothOperands (a b : Token) : Prop := a.isOperand = true ∧ b.isOperand = true

theorem isOperand_eq_false_iff {token : Token} :
    token.isOperand = false ↔ token.kind = .operator := by
  cases token <;> simp [isOperand, kind]

theorem bothOperators_iff (a b : Token) :
    (!a.isOperand && !b.isOperand) = true ↔ BothOperators a b := by
  simp [BothOperators, isOperand_eq_false_iff]

theorem bothOperands_iff (a b : Token) :
    (a.isOperand && b.isOperand) = true ↔ BothOperands a b :=
  Bool.and_eq_true_iff

theorem isChain_iff_neighbours (p : Token → Token → Prop) (tokens : List Token) :
    tokens.IsChain p ↔ ∀ place a b, Neighbours tokens place a b → p a b := by
  rw [List.isChain_iff_getElem]
  constructor
  · rintro h place a b ⟨ha, hb⟩
    obtain ⟨_, rfl⟩ := List.getElem?_eq_some_iff.1 ha
    obtain ⟨hlt, rfl⟩ := List.getElem?_eq_some_iff.1 hb
    exact h place hlt
  · intro h place hlt
    exact h place _ _ ⟨List.getElem?_eq_getElem _, List.getElem?_eq_getElem hlt⟩

theorem leftmostPair_of_holds {p : Token → Token → Prop} {x y a b : Token} {rest : List Token}
    (h : p x y) : LeftmostPair p (x :: y :: rest) a b ↔ x = a ∧ y = b := by
  constructor
  · rintro ⟨place, hpair, -, hfirst⟩
    cases place with
    | zero => exact ⟨Option.some.inj hpair.1, Option.some.inj hpair.2⟩
    | succ place => exact absurd h (hfirst 0 (Nat.succ_pos place) x y ⟨rfl, rfl⟩)
  · rintro ⟨rfl, rfl⟩
    exact ⟨0, ⟨rfl, rfl⟩, h, fun earlier hlt => absurd hlt (Nat.not_lt_zero earlier)⟩

theorem leftmostPair_of_not_holds {p : Token → Token → Prop} {x y a b : Token}
    {rest : List Token} (h : ¬ p x y) :
    LeftmostPair p (x :: y :: rest) a b ↔ LeftmostPair p (y :: rest) a b := by
  constructor
  · rintro ⟨place, hpair, hholds, hfirst⟩
    cases place with
    | zero =>
        obtain rfl := Option.some.inj hpair.1
        obtain rfl := Option.some.inj hpair.2
        exact absurd hholds h
    | succ place =>
        exact ⟨place, hpair, hholds, fun earlier hlt => hfirst (earlier + 1) (by omega)⟩
  · rintro ⟨place, hpair, hholds, hfirst⟩
    refine ⟨place + 1, hpair, hholds, ?_⟩
    rintro (_ | earlier) hlt c d hpair'
    · obtain rfl := Option.some.inj hpair'.1
      obtain rfl := Option.some.inj hpair'.2
      exact h
    · exact hfirst earlier (by omega) c d hpair'

end Token

section Pass

variable {p : Token → Token → Bool} {q : Token → Token → Prop}

theorem firstPair?_eq_some_iff (hp : ∀ x y, p x y = true ↔ q x y) {tokens : List Token}
    {a b : Token} : firstPair? p tokens = some (a, b) ↔ Token.LeftmostPair q tokens a b := by
  induction tokens with
  | nil =>
      constructor
      · intro h
        cases h
      · rintro ⟨place, ⟨h, -⟩, -⟩
        cases h
  | cons x rest ih =>
      cases rest with
      | nil =>
          constructor
          · intro h
            cases h
          · rintro ⟨place, ⟨-, h⟩, -⟩
            cases h
      | cons y rest =>
          rw [firstPair?]
          split
          · rename_i hholds
            simp [Token.leftmostPair_of_holds ((hp x y).1 hholds)]
          · rename_i hnot
            rw [ih, Token.leftmostPair_of_not_holds (mt (hp x y).2 hnot)]

theorem firstPair?_eq_none_iff_neighbours (hp : ∀ x y, p x y = true ↔ q x y)
    {tokens : List Token} : firstPair? p tokens = none ↔
      ∀ place a b, Token.Neighbours tokens place a b → ¬ q a b := by
  simp only [firstPair?_eq_none_iff, Token.isChain_iff_neighbours, ← hp, Bool.not_eq_true]

end Pass

namespace Token

/-! ### Places -/

/-- Operands stand at the even places of the list, and operators at the odd ones. -/
def InTurn (tokens : List Token) : Prop :=
  ∀ (place : Nat) (token : Token), tokens[place]? = some token →
    (Even place → token.isOperand = true) ∧ (Odd place → token.kind = .operator)

theorem Alternate.isOperand_iff {tokens : List Token} (h : Alternate tokens) {place : Nat}
    {token : Token} (htoken : tokens[place]? = some token) :
    token.isOperand = true ↔ Even place := by
  induction place generalizing token with
  | zero =>
      obtain ⟨first, hfirst, hoperand⟩ := h.head
      rw [List.head?_eq_getElem?, htoken] at hfirst
      obtain rfl := Option.some.inj hfirst
      simp [hoperand]
  | succ place ih =>
      have hlt := (List.getElem?_eq_some_iff.1 htoken).1
      have hbefore := List.getElem?_eq_getElem (Nat.lt_of_succ_lt hlt)
      have hne := (isChain_iff_neighbours _ _).1 h.chain place _ _ ⟨hbefore, htoken⟩
      rw [Nat.even_add_one, ← ih hbefore, Bool.not_eq_true]
      cases htoken : token.isOperand with
      | true => simpa [htoken] using hne
      | false => simpa [htoken] using hne

theorem alternate_iff_inTurn (tokens : List Token) :
    Alternate tokens ↔ Odd tokens.length ∧ InTurn tokens := by
  constructor
  · intro h
    constructor
    · obtain ⟨last, hlast, hoperand⟩ := h.last
      rw [List.getLast?_eq_getElem?] at hlast
      have hlt := (List.getElem?_eq_some_iff.1 hlast).1
      have heven := (h.isOperand_iff hlast).1 hoperand
      rw [← Nat.sub_one_add_one (Nat.ne_of_gt (Nat.zero_lt_of_lt hlt))]
      exact heven.add_one
    · intro place token htoken
      constructor
      · exact (h.isOperand_iff htoken).2
      · intro hodd
        rw [← isOperand_eq_false_iff, Bool.eq_false_iff, Ne, h.isOperand_iff htoken]
        exact Nat.not_even_iff_odd.2 hodd
  · rintro ⟨hodd, hturn⟩
    have hpos : 0 < tokens.length := Nat.pos_of_ne_zero fun h => by simp [h] at hodd
    constructor
    · have hfirst := List.getElem?_eq_getElem hpos
      exact ⟨_, List.head?_eq_getElem?.trans hfirst, (hturn _ _ hfirst).1 Even.zero⟩
    · have hlast := List.getElem?_eq_getElem (Nat.sub_lt hpos Nat.one_pos)
      have heven := Nat.Odd.sub_odd hodd odd_one
      exact ⟨_, List.getLast?_eq_getElem?.trans hlast, (hturn _ _ hlast).1 heven⟩
    · rw [isChain_iff_neighbours]
      rintro place a b ⟨ha, hb⟩
      rcases Nat.even_or_odd place with heven | hodd
      · rw [(hturn _ _ ha).1 heven, isOperand_eq_false_iff.2 ((hturn _ _ hb).2 heven.add_one)]
        decide
      · rw [isOperand_eq_false_iff.2 ((hturn _ _ ha).2 hodd), (hturn _ _ hb).1 hodd.add_one]
        decide

/-! ### Broken rules -/

/-- There are not too many tokens, and an operand stands at either end. -/
structure Bordered (tokens : List Token) : Prop where
  limit : tokens.length ≤ maxTokens
  head : ∃ token, tokens.head? = some token ∧ token.isOperand = true
  last : ∃ token, tokens.getLast? = some token ∧ token.isOperand = true

/-- The first of the rules that a list of tokens breaks. -/
inductive Fault (tokens : List Token) : Rejection → Prop where
  | tooMany (long : maxTokens < tokens.length) :
      Fault tokens (.tooManyTokens tokens.length maxTokens)
  | none (empty : tokens = []) : Fault tokens .noOperand
  | leading {first : Token} (limit : tokens.length ≤ maxTokens)
      (head : tokens.head? = some first) (operator : first.kind = .operator) :
      Fault tokens .leadingOperator
  | trailing {first final : Token} (limit : tokens.length ≤ maxTokens)
      (head : tokens.head? = some first) (operand : first.isOperand = true)
      (last : tokens.getLast? = some final) (operator : final.kind = .operator) :
      Fault tokens .trailingOperator
  | consecutive {a b : Token} (bordered : Bordered tokens)
      (pair : LeftmostPair BothOperators tokens a b) :
      Fault tokens (.consecutiveOperators a.text b.text)
  | missing {a b : Token} (bordered : Bordered tokens)
      (apart : ∀ place c d, Neighbours tokens place c d → ¬ BothOperators c d)
      (pair : LeftmostPair BothOperands tokens a b) :
      Fault tokens (.missingOperator a.text b.text)

end Token

theorem checkTokens_eq_checkNeighbours {tokens : List Token} (h : Token.Bordered tokens) :
    checkTokens tokens = checkNeighbours tokens := by
  obtain ⟨first, hfirst, hoperand⟩ := h.head
  obtain ⟨last, hlast, hoperand'⟩ := h.last
  rw [checkTokens, if_neg (Nat.not_lt.2 h.limit)]
  simp only [hfirst, hlast, hoperand, hoperand', Bool.not_true, Bool.false_eq_true, if_false]

theorem exists_getLast?_eq_some {tokens : List Token} {first : Token}
    (h : tokens.head? = some first) : ∃ final, tokens.getLast? = some final := by
  obtain ⟨rest, rfl⟩ := List.head?_eq_some_iff.1 h
  exact ⟨_, List.getLast?_eq_some_getLast (List.cons_ne_nil first rest)⟩

/-- A list that breaks a rule is refused for it. -/
theorem Token.Fault.checkTokens_eq {tokens : List Token} {rejection : Rejection}
    (h : Token.Fault tokens rejection) : checkTokens tokens = .error rejection := by
  cases h with
  | tooMany hlong => rw [checkTokens, if_pos hlong]
  | none hnil =>
      rw [hnil]
      rfl
  | leading hlimit hhead hoperator =>
      obtain ⟨final, hlast⟩ := exists_getLast?_eq_some hhead
      rw [checkTokens, if_neg (Nat.not_lt.2 hlimit)]
      simp [hhead, hlast, Token.isOperand_eq_false_iff.2 hoperator]
  | trailing hlimit hhead hoperand hlast hoperator =>
      rw [checkTokens, if_neg (Nat.not_lt.2 hlimit)]
      simp [hhead, hlast, hoperand, Token.isOperand_eq_false_iff.2 hoperator]
  | consecutive hbordered hpair =>
      rw [checkTokens_eq_checkNeighbours hbordered, checkNeighbours,
        (firstPair?_eq_some_iff Token.bothOperators_iff).2 hpair]
  | missing hbordered hapart hpair =>
      rw [checkTokens_eq_checkNeighbours hbordered, checkNeighbours,
        (firstPair?_eq_none_iff_neighbours Token.bothOperators_iff).2 hapart,
        (firstPair?_eq_some_iff Token.bothOperands_iff).2 hpair]

/-- Behind the rules on the ends, the last rule on neighbours finds nothing. -/
theorem fault_of_checkNeighbours {tokens : List Token} {rejection : Rejection}
    (hbordered : Token.Bordered tokens) (h : checkNeighbours tokens = .error rejection) :
    Token.Fault tokens rejection := by
  have hok := checkNeighbours_eq_ok_iff hbordered.head hbordered.last
  rw [← neighbours_eq_none_iff, h] at hok
  unfold checkNeighbours at h
  split at h
  · rename_i a b hpair
    obtain rfl := Except.error.inj h
    exact .consecutive hbordered ((firstPair?_eq_some_iff Token.bothOperators_iff).1 hpair)
  · rename_i hoperators
    split at h
    · rename_i a b hpair
      obtain rfl := Except.error.inj h
      exact .missing hbordered
        ((firstPair?_eq_none_iff_neighbours Token.bothOperators_iff).1 hoperators)
        ((firstPair?_eq_some_iff Token.bothOperands_iff).1 hpair)
    · rename_i hoperands
      cases hok.2 ⟨hoperators, hoperands⟩

theorem fault_of_checkTokens {tokens : List Token} {rejection : Rejection}
    (h : checkTokens tokens = .error rejection) : Token.Fault tokens rejection := by
  by_cases hlong : maxTokens < tokens.length
  · rw [checkTokens, if_pos hlong] at h
    obtain rfl := Except.error.inj h
    exact .tooMany hlong
  cases hhead : tokens.head? with
  | none =>
      obtain rfl := List.head?_eq_none_iff.1 hhead
      obtain rfl := Except.error.inj h
      exact .none rfl
  | some first =>
      obtain ⟨final, hlast⟩ := exists_getLast?_eq_some hhead
      by_cases hoperand : first.isOperand = true
      · by_cases hoperand' : final.isOperand = true
        · have hbordered : Token.Bordered tokens :=
            ⟨Nat.not_lt.1 hlong, ⟨first, hhead, hoperand⟩, ⟨final, hlast, hoperand'⟩⟩
          rw [checkTokens_eq_checkNeighbours hbordered] at h
          exact fault_of_checkNeighbours hbordered h
        · rw [Bool.not_eq_true, Token.isOperand_eq_false_iff] at hoperand'
          have hfault : Token.Fault tokens .trailingOperator :=
            .trailing (Nat.not_lt.1 hlong) hhead hoperand hlast hoperand'
          rwa [← Except.error.inj (hfault.checkTokens_eq.symm.trans h)]
      · rw [Bool.not_eq_true, Token.isOperand_eq_false_iff] at hoperand
        have hfault : Token.Fault tokens .leadingOperator :=
          .leading (Nat.not_lt.1 hlong) hhead hoperand
        rwa [← Except.error.inj (hfault.checkTokens_eq.symm.trans h)]

/-- A list of tokens is refused for the first of the rules that it breaks. -/
theorem checkTokens_eq_error_iff {tokens : List Token} {rejection : Rejection} :
    checkTokens tokens = .error rejection ↔ Token.Fault tokens rejection :=
  ⟨fault_of_checkTokens, Token.Fault.checkTokens_eq⟩

/-- A list of tokens is accepted exactly if it has an odd number of tokens, eleven at most, with
operands at the even places and operators at the odd ones. No list is refused for an operator that
lacks an operand. In a list that is not too long and has operands at its ends, the leftmost two
operators that are neighbours are reported, and the leftmost two operands that are neighbours only
if there are no such operators. -/
theorem checkTokens_alternation (tokens : List Token) :
    (checkTokens tokens = .ok () ↔
      Odd tokens.length ∧ tokens.length ≤ 11 ∧ Token.InTurn tokens) ∧
    (∀ operator, checkTokens tokens ≠ .error (.danglingOperator operator)) ∧
    (∀ first second, checkTokens tokens = .error (.consecutiveOperators first second) ↔
      Token.Bordered tokens ∧ ∃ a b, Token.LeftmostPair Token.BothOperators tokens a b ∧
        a.text = first ∧ b.text = second) ∧
    ∀ left right, checkTokens tokens = .error (.missingOperator left right) ↔
      Token.Bordered tokens ∧
        (∀ place a b, Token.Neighbours tokens place a b → ¬ Token.BothOperators a b) ∧
        ∃ a b, Token.LeftmostPair Token.BothOperands tokens a b ∧
          a.text = left ∧ b.text = right := by
  refine ⟨?_, ?_, ?_, ?_⟩
  · rw [checkTokens_eq_ok_iff, Token.alternate_iff_inTurn]
    constructor
    · rintro ⟨hlimit, ⟨half, hlength⟩, hturn⟩
      -- an odd number is not the limit itself
      have hbelow : tokens.length ≤ 11 := by
        rw [maxTokens] at hlimit
        omega
      exact ⟨⟨half, hlength⟩, hbelow, hturn⟩
    · rintro ⟨hodd, hbelow, hturn⟩
      exact ⟨hbelow.trans (by decide), hodd, hturn⟩
  · intro operator h
    cases fault_of_checkTokens h
  · intro first second
    rw [checkTokens_eq_error_iff]
    constructor
    · intro h
      cases h with
      | consecutive hbordered hpair => exact ⟨hbordered, _, _, hpair, rfl, rfl⟩
    · rintro ⟨hbordered, a, b, hpair, rfl, rfl⟩
      exact .consecutive hbordered hpair
  · intro left right
    rw [checkTokens_eq_error_iff]
    constructor
    · intro h
      cases h with
      | missing hbordered hapart hpair => exact ⟨hbordered, hapart, _, _, hpair, rfl, rfl⟩
    · rintro ⟨hbordered, hapart, a, b, hpair, rfl, rfl⟩
      exact .missing hbordered hapart hpair

/-- Two operators are reported although two operands are neighbours further to the left. -/
theorem checkTokens_alternation_operators :
    checkTokens [.number "1", .variable "i", .operator .add, .operator .mul, .number "2"] =
      .error (.consecutiveOperators "+" "×") ∧
    ∃ a b, Token.LeftmostPair Token.BothOperators
      [.number "1", .variable "i", .operator .add, .operator .mul, .number "2"] a b ∧
        a.text = "+" ∧ b.text = "×" := by
  have hreport : checkTokens
      [.number "1", .variable "i", .operator .add, .operator .mul, .number "2"] =
        .error (.consecutiveOperators "+" "×") := by decide +kernel
  obtain ⟨-, -, hoperators, -⟩ := checkTokens_alternation
    [.number "1", .variable "i", .operator .add, .operator .mul, .number "2"]
  exact ⟨hreport, ((hoperators _ _).1 hreport).2⟩

end HatCircle
