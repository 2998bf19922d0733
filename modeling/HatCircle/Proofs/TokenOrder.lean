import Mathlib.Data.List.Chain
import HatCircle.Proofs.Grammar

/-!
# The order of tokens as alternation

The rules on tokens are five passes over the whole list. Together they say one thing:
there are at most `maxTokens` tokens, operands and operators alternate, and there is an
operand at either end (`checkTokens_eq_ok_iff`). The tokens of a phrase are always in
that order, so the limit is the only rule that can refuse them.
-/

namespace HatCircle

/-- Operands and operators alternate, with an operand at either end. -/
structure Token.Alternate (tokens : List Token) : Prop where
  head : ∃ token, tokens.head? = some token ∧ token.isOperand = true
  last : ∃ token, tokens.getLast? = some token ∧ token.isOperand = true
  chain : tokens.IsChain fun a b => a.isOperand ≠ b.isOperand

namespace Token.Alternate

theorem single {token : Token} (h : token.isOperand = true) : Alternate [token] :=
  ⟨⟨token, rfl, h⟩, ⟨token, rfl, h⟩, .singleton _⟩

/-- Two alternating lists with an operator between them alternate. -/
theorem append_operator {front back : List Token} {operator : Token} (hf : Alternate front)
    (ho : operator.isOperand = false) (hb : Alternate back) :
    Alternate (front ++ operator :: back) := by
  obtain ⟨first, hfirst, hfirst'⟩ := hf.head
  obtain ⟨left, hleft, hleft'⟩ := hf.last
  obtain ⟨right, hright, hright'⟩ := hb.head
  obtain ⟨last, hlast, hlast'⟩ := hb.last
  refine ⟨⟨first, ?_, hfirst'⟩, ⟨last, ?_, hlast'⟩, ?_⟩
  · simp [List.head?_append, hfirst]
  · simp [List.getLast?_append, List.getLast?_cons, hlast]
  · refine List.isChain_append.2 ⟨hf.chain, List.isChain_cons.2 ⟨?_, hb.chain⟩, ?_⟩
    · intro token htoken
      obtain rfl : right = token := by simpa [hright] using htoken
      simp [ho, hright']
    · intro token htoken other hother
      obtain rfl : left = token := by simpa [hleft] using htoken
      obtain rfl : operator = other := by simpa using hother
      simp [ho, hleft']

end Token.Alternate

theorem Phrase.alternate_tokens {level : Level} (phrase : Phrase level) :
    Token.Alternate (Lexeme.tokens phrase.lexemes) := by
  induction phrase with
  | number digits => exact .single rfl
  | «variable» name => exact .single rfl
  | group inner ih => simpa [lexemes] using ih
  | factor body ih => exact ih
  | times lhs rhs ihl ihr =>
      simp only [lexemes, Lexeme.tokens_append, Lexeme.tokens_token]
      exact ihl.append_operator rfl ihr
  | product body ih => exact ih
  | join lhs op additive rhs ihl ihr =>
      simp only [lexemes, Lexeme.tokens_append, Lexeme.tokens_token]
      exact ihl.append_operator rfl ihr

/-! ### The passes -/

theorem firstPair?_eq_none_iff (p : Token → Token → Bool) (tokens : List Token) :
    firstPair? p tokens = none ↔ tokens.IsChain fun a b => p a b = false := by
  induction tokens with
  | nil => simp [firstPair?]
  | cons a rest ih =>
      cases rest with
      | nil => simp [firstPair?]
      | cons b rest =>
          rw [firstPair?, List.isChain_cons_cons]
          split
          · simp_all
          · simp_all

/-- The two passes on neighbours find nothing exactly when the neighbours alternate. -/
theorem neighbours_eq_none_iff (tokens : List Token) :
    (firstPair? (fun a b => !a.isOperand && !b.isOperand) tokens = none ∧
      firstPair? (fun a b => a.isOperand && b.isOperand) tokens = none) ↔
      tokens.IsChain fun a b => a.isOperand ≠ b.isOperand := by
  rw [firstPair?_eq_none_iff, firstPair?_eq_none_iff]
  constructor
  · rintro ⟨hoperators, hoperands⟩
    induction tokens with
    | nil => exact .nil
    | cons a rest ih =>
        cases rest with
        | nil => exact .singleton _
        | cons b rest =>
            rw [List.isChain_cons_cons] at hoperators hoperands ⊢
            refine ⟨?_, ih hoperators.2 hoperands.2⟩
            have h₁ := hoperators.1
            have h₂ := hoperands.1
            cases ha : a.isOperand <;> simp_all
  · intro h
    constructor
    · refine h.imp fun a b hab => ?_
      cases ha : a.isOperand <;> simp_all
    · refine h.imp fun a b hab => ?_
      cases ha : a.isOperand <;> simp_all

/-- Behind an alternating list no operator lacks an operand, whatever stands before it. -/
theorem danglingAfter?_eq_none {tokens : List Token} {before : Option Token}
    (hbefore : ∀ a ∈ before, ∀ b ∈ tokens.head?, a.isOperand ≠ b.isOperand)
    (hfirst : before = none → ∀ b ∈ tokens.head?, b.isOperand = true)
    (hlast : ∀ b ∈ tokens.getLast?, b.isOperand = true)
    (hchain : tokens.IsChain fun a b => a.isOperand ≠ b.isOperand) :
    danglingAfter? before tokens = none := by
  induction tokens generalizing before with
  | nil => rfl
  | cons token rest ih =>
      rw [List.isChain_cons] at hchain
      have hnext : danglingAfter? (some token) rest = none := by
        apply ih
        · intro a ha b hb
          obtain rfl : token = a := by simpa using ha
          exact hchain.1 b hb
        · intro h
          cases h
        · intro b hb
          cases rest with
          | nil => cases hb
          | cons c rest => exact hlast b (by simpa [List.getLast?_cons_cons] using hb)
        · exact hchain.2
      rw [danglingAfter?, hnext]
      cases htoken : token.isOperand with
      | true => simp
      | false =>
          -- an operator is neither first nor last, and its neighbours are operands
          have hleft : before.any Token.isOperand = true := by
            cases before with
            | none => simpa [htoken] using hfirst rfl token (by simp)
            | some a => simpa [htoken] using hbefore a (by simp) token (by simp)
          have hright : rest.head?.any Token.isOperand = true := by
            cases rest with
            | nil => simpa [htoken] using hlast token (by simp)
            | cons b rest => simpa [htoken] using hchain.1 b (by simp)
          simp [hleft, hright]

theorem checkNeighbours_eq_ok_iff {tokens : List Token}
    (hhead : ∃ token, tokens.head? = some token ∧ token.isOperand = true)
    (hlast : ∃ token, tokens.getLast? = some token ∧ token.isOperand = true) :
    checkNeighbours tokens = .ok () ↔
      tokens.IsChain fun a b => a.isOperand ≠ b.isOperand := by
  rw [← neighbours_eq_none_iff]
  unfold checkNeighbours
  constructor
  · intro h
    split at h
    · cases h
    · rename_i hoperators
      split at h
      · cases h
      · rename_i hoperands
        exact ⟨hoperators, hoperands⟩
  · intro h
    obtain ⟨first, hfirst, hfirst'⟩ := hhead
    obtain ⟨last, hlast, hlast'⟩ := hlast
    have hdangling : danglingAfter? none tokens = none := by
      apply danglingAfter?_eq_none
      · intro a ha
        cases ha
      · intro _ b hb
        obtain rfl : first = b := by simpa [hfirst] using hb
        exact hfirst'
      · intro b hb
        obtain rfl : last = b := by simpa [hlast] using hb
        exact hlast'
      · exact (neighbours_eq_none_iff tokens).1 h
    simp only [h.1, h.2, hdangling]

/-- The rules on tokens as a whole. -/
theorem checkTokens_eq_ok_iff (tokens : List Token) :
    checkTokens tokens = .ok () ↔ tokens.length ≤ maxTokens ∧ Token.Alternate tokens := by
  unfold checkTokens
  constructor
  · intro h
    split at h
    · cases h
    · rename_i hlimit
      split at h
      · rename_i first last hfirst hlast
        split at h
        · cases h
        · rename_i hfirst'
          split at h
          · cases h
          · rename_i hlast'
            have hhead : ∃ token, tokens.head? = some token ∧ token.isOperand = true :=
              ⟨first, hfirst, by simpa using hfirst'⟩
            have hend : ∃ token, tokens.getLast? = some token ∧ token.isOperand = true :=
              ⟨last, hlast, by simpa using hlast'⟩
            exact ⟨by omega, hhead, hend, (checkNeighbours_eq_ok_iff hhead hend).1 h⟩
      · cases h
  · rintro ⟨hlimit, horder⟩
    obtain ⟨first, hfirst, hfirst'⟩ := horder.head
    obtain ⟨last, hlast, hlast'⟩ := horder.last
    rw [if_neg (by omega)]
    simp only [hfirst, hlast, hfirst', hlast']
    exact (checkNeighbours_eq_ok_iff horder.head horder.last).2 horder.chain

end HatCircle
