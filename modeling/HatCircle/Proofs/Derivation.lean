import HatCircle.Proofs.Grouped
import HatCircle.Proofs.TokenOrder

/-!
# Which lexemes are a phrase

The checks look at a text twice: once at its groups, character by character, and once at
its tokens without the groups. Neither knows the grammar. This file shows that the two
leave no gap: when the groups of the text are sound and the tokens alternate, the
lexemes are those of a phrase (`exists_phrase`). Conversely, the text of a phrase has
sound groups (`Phrase.grouped_text`).

All that is asked of the operands is that their texts hold neither parentheses nor
operators, so the names of a puzzle may be odd in every other way.
-/

namespace HatCircle

def isMark (c : Char) : Bool :=
  c == '(' || c == ')' || isOperator c

theorem isMark_sign (op : Operator) : isMark op.sign = true := by
  cases op <;> decide

theorem isOperator_sign (op : Operator) : isOperator op.sign = true := by
  cases op <;> decide

theorem sign_ne_parenthesis (op : Operator) : op.sign ≠ '(' ∧ op.sign ≠ ')' := by
  cases op <;> decide

theorem ne_parenthesis_of_isMark {c : Char} (h : isMark c = false) : c ≠ '(' ∧ c ≠ ')' := by
  simp only [isMark, Bool.or_eq_false_iff, beq_eq_false_iff_ne] at h
  exact h.1

theorem isOperator_of_isMark {c : Char} (h : isMark c = false) : isOperator c = false := by
  simp only [isMark, Bool.or_eq_false_iff] at h
  exact h.2

/-- The operands among the lexemes are written with some characters, and without
parentheses and operators. -/
def Lexeme.Plain : Lexeme → Prop
  | .token (.operator _) => True
  | .token operand => operand.text.toList ≠ [] ∧ ∀ c ∈ operand.text.toList, isMark c = false
  | _ => True

namespace Lexeme

theorem Plain.of_isOperand {token : Token} (h : (Lexeme.token token).Plain)
    (ho : token.isOperand = true) :
    token.text.toList ≠ [] ∧ ∀ c ∈ token.text.toList, isMark c = false := by
  cases token with
  | number digits => exact h
  | «variable» name => exact h
  | operator op => cases ho

theorem eq_operator_of_isOperand {token : Token} (h : token.isOperand = false) :
    ∃ op, token = .operator op := by
  cases token with
  | number digits => cases h
  | «variable» name => cases h
  | operator op => exact ⟨op, rfl⟩

theorem Plain.ne_parenthesis {token : Token} (h : (Lexeme.token token).Plain) :
    ∀ c ∈ (Lexeme.token token).text.toList, c ≠ '(' ∧ c ≠ ')' := by
  intro c hc
  cases ho : token.isOperand with
  | true => exact ne_parenthesis_of_isMark ((h.of_isOperand ho).2 c hc)
  | false =>
      obtain ⟨op, rfl⟩ := eq_operator_of_isOperand ho
      obtain rfl : c = op.sign := by simpa using hc
      exact sign_ne_parenthesis op

/-- A parenthesis in the text of plain lexemes is a lexeme of its own. -/
theorem exists_split {lexemes : List Lexeme} (hplain : ∀ l ∈ lexemes, l.Plain)
    {front back : List Char} {c : Char} (hc : c = '(' ∨ c = ')')
    (h : spell lexemes = front ++ c :: back) :
    ∃ before mark after, lexemes = before ++ mark :: after ∧ mark.token? = none ∧
      mark.text.toList = [c] ∧ spell before = front ∧ spell after = back := by
  induction lexemes generalizing front with
  | nil => simp at h
  | cons lexeme rest ih =>
      have hrest : ∀ l ∈ rest, l.Plain := fun l hl => hplain l (by simp [hl])
      rw [spell_cons, List.append_eq_append_iff] at h
      rcases h with ⟨middle, hfront, hback⟩ | ⟨middle, htext, hmark⟩
      · obtain ⟨before, mark, after, rfl, htoken, hmark, hbefore, hafter⟩ := ih hrest hback
        exact ⟨lexeme :: before, mark, after, rfl, htoken, hmark,
          by rw [spell_cons, hbefore, hfront], hafter⟩
      · cases middle with
        | nil =>
            have hnext : spell rest = [] ++ c :: back := hmark.symm
            obtain ⟨before, mark, after, rfl, htoken, hmark, hbefore, hafter⟩ := ih hrest hnext
            refine ⟨lexeme :: before, mark, after, rfl, htoken, hmark, ?_, hafter⟩
            rw [spell_cons, hbefore, htext]
            simp
        | cons d middle =>
            -- the parenthesis is a character of the first lexeme
            obtain ⟨rfl, hback⟩ := List.cons.inj hmark
            have hmem : c ∈ lexeme.text.toList := by simp [htext]
            have hmark : lexeme.token? = none ∧ ∃ d, lexeme.text.toList = [d] := by
              cases lexeme with
              | token token =>
                  have hne := (hplain _ (by simp)).ne_parenthesis c hmem
                  rcases hc with rfl | rfl
                  · exact absurd rfl hne.1
                  · exact absurd rfl hne.2
              | opening => exact ⟨rfl, '(', rfl⟩
              | closing => exact ⟨rfl, ')', rfl⟩
            obtain ⟨htoken, d, hd⟩ := hmark
            rw [hd] at htext
            cases front with
            | nil =>
                obtain ⟨rfl, rfl⟩ := List.cons.inj htext
                exact ⟨[], lexeme, rest, rfl, htoken, hd, rfl, hback.symm⟩
            | cons e front => cases front <;> cases htext

theorem exists_split_opening {lexemes : List Lexeme} (hplain : ∀ l ∈ lexemes, l.Plain)
    {front back : List Char} (h : spell lexemes = front ++ '(' :: back) :
    ∃ before after, lexemes = before ++ .opening :: after ∧ spell before = front ∧
      spell after = back := by
  obtain ⟨before, mark, after, rfl, htoken, htext, hspell⟩ := exists_split hplain (.inl rfl) h
  cases mark with
  | token => cases htoken
  | opening => exact ⟨before, after, rfl, hspell⟩
  | closing => exact absurd htext (by decide)

theorem exists_split_closing {lexemes : List Lexeme} (hplain : ∀ l ∈ lexemes, l.Plain)
    {front back : List Char} (h : spell lexemes = front ++ ')' :: back) :
    ∃ before after, lexemes = before ++ .closing :: after ∧ spell before = front ∧
      spell after = back := by
  obtain ⟨before, mark, after, rfl, htoken, htext, hspell⟩ := exists_split hplain (.inr rfl) h
  cases mark with
  | token => cases htoken
  | opening => exact absurd htext (by decide)
  | closing => exact ⟨before, after, rfl, hspell⟩

theorem head?_ne_operator {lexemes : List Lexeme} (h : EndsWell (spell lexemes))
    (op : Operator) : lexemes.head? ≠ some (.token (.operator op)) := by
  intro hop
  obtain ⟨rest, rfl⟩ := List.head?_eq_some_iff.1 hop
  have hsign := h.head op.sign (by simp)
  rw [isOperator_sign] at hsign
  cases hsign

theorem getLast?_ne_operator {lexemes : List Lexeme} (h : EndsWell (spell lexemes))
    (op : Operator) : lexemes.getLast? ≠ some (.token (.operator op)) := by
  intro hop
  obtain ⟨front, rfl⟩ := List.getLast?_eq_some_iff.1 hop
  have hsign := h.last op.sign (by simp)
  rw [isOperator_sign] at hsign
  cases hsign

/-! ### Lexemes with sound groups and alternating tokens -/

/-- Plain lexemes with sound groups, whose tokens are a stretch of an alternating list. -/
structure Sound (lexemes : List Lexeme) : Prop where
  plain : ∀ lexeme ∈ lexemes, lexeme.Plain
  grouped : Grouped (spell lexemes)
  chain : (tokens lexemes).IsChain fun a b => a.isOperand ≠ b.isOperand

namespace Sound

theorem tail {token : Token} {rest : List Lexeme} (h : Sound (.token token :: rest)) :
    Sound rest := by
  refine ⟨fun l hl => h.plain l (by simp [hl]), ?_, ?_⟩
  · have hgrouped := h.grouped
    rw [spell_cons] at hgrouped
    exact hgrouped.of_append (h.plain _ (by simp)).ne_parenthesis
  · have hchain := h.chain
    rw [tokens_token] at hchain
    exact (List.isChain_cons.1 hchain).2

theorem not_operator_twice {op : Operator} {rest : List Lexeme}
    (h : Sound (.token (.operator op) :: rest)) (other : Operator) :
    rest.head? ≠ some (.token (.operator other)) := by
  intro hother
  cases rest with
  | nil => cases hother
  | cons lexeme rest =>
      obtain rfl : lexeme = .token (.operator other) := by simpa using hother
      have hne := (List.isChain_cons_cons.1 h.chain).1
      exact hne rfl

theorem not_closing {rest : List Lexeme} : ¬ Sound (.closing :: rest) := by
  intro h
  have hgrouped := h.grouped
  generalize htext : spell (.closing :: rest) = text at hgrouped
  rw [spell_cons, toList_text_closing] at htext
  cases hgrouped with
  | nil => cases htext
  | char _ hclosing => exact hclosing (List.cons.inj htext).1.symm
  | group => exact absurd (List.cons.inj htext).1 (by decide)

/-- An opening parenthesis has its partner, and the group between them ends well. -/
theorem split_group {rest : List Lexeme} (h : Sound (.opening :: rest)) :
    ∃ inner back, rest = inner ++ .closing :: back ∧ Sound inner ∧ EndsWell (spell inner) ∧
      Sound back := by
  have hgrouped := h.grouped
  generalize htext : spell (.opening :: rest) = text at hgrouped
  rw [spell_cons, toList_text_opening] at htext
  cases hgrouped with
  | nil => cases htext
  | char hopening => exact absurd (List.cons.inj htext).1.symm hopening
  | group hinner hends hback =>
      have hrest : ∀ l ∈ rest, l.Plain := fun l hl => h.plain l (by simp [hl])
      obtain ⟨inner, back, rfl, rfl, rfl⟩ :=
        exists_split_closing hrest (List.cons.inj htext).2
      have hchain := h.chain
      simp only [tokens_opening, tokens_append, tokens_closing] at hchain
      have hparts := List.isChain_append.1 hchain
      exact ⟨inner, back, rfl, ⟨fun l hl => hrest l (by simp [hl]), hinner, hparts.1⟩, hends,
        ⟨fun l hl => hrest l (by simp [hl]), hback, hparts.2.1⟩⟩

end Sound

end Lexeme

/-! ### From lexemes to phrases -/

namespace Phrase

/-- The sum with one more factor behind an operator. A factor behind `×` goes to the
last product of the sum. -/
def extend : Phrase .sum → Operator → Phrase .factor → Phrase .sum
  | lhs, .add, rhs => .join lhs .add rfl (.factor rhs)
  | lhs, .sub, rhs => .join lhs .sub rfl (.factor rhs)
  | .product body, .mul, rhs => .product (.times body rhs)
  | .join lhs op additive body, .mul, rhs => .join lhs op additive (.times body rhs)

theorem length_lexemes_pos {level : Level} (phrase : Phrase level) :
    0 < phrase.lexemes.length := by
  rw [List.length_pos_iff]
  intro hnil
  obtain ⟨first, hhead, -⟩ := phrase.alternate_tokens.head
  rw [hnil] at hhead
  cases hhead

theorem lexemes_extend (lhs : Phrase .sum) (op : Operator) (rhs : Phrase .factor) :
    (lhs.extend op rhs).lexemes = lhs.lexemes ++ .token (.operator op) :: rhs.lexemes := by
  cases op with
  | add => cases lhs <;> simp [extend, lexemes]
  | sub => cases lhs <;> simp [extend, lexemes]
  | mul => cases lhs <;> simp [extend, lexemes]

end Phrase

open Lexeme

/-- The first factor of sound lexemes that do not start with an operator, if each shorter
sound list that ends well is known to be a sum. -/
theorem exists_factor {lexemes : List Lexeme}
    (ih : ∀ inner : List Lexeme, inner.length < lexemes.length → Sound inner →
      EndsWell (spell inner) → ∃ phrase : Phrase .sum, phrase.lexemes = inner)
    (hsound : Sound lexemes) (hne : lexemes ≠ [])
    (hfirst : ∀ op, lexemes.head? ≠ some (.token (.operator op))) :
    ∃ (factor : Phrase .factor) (rest : List Lexeme),
      lexemes = factor.lexemes ++ rest ∧ Sound rest := by
  cases lexemes with
  | nil => exact absurd rfl hne
  | cons lexeme rest =>
      cases lexeme with
      | token token =>
          cases token with
          | number digits => exact ⟨.number digits, rest, rfl, hsound.tail⟩
          | «variable» name => exact ⟨.variable name, rest, rfl, hsound.tail⟩
          | operator op => exact absurd rfl (hfirst op)
      | opening =>
          obtain ⟨inner, back, rfl, hinner, hends, hback⟩ := hsound.split_group
          have hlt : inner.length < (.opening :: (inner ++ .closing :: back)).length := by
            simp only [List.length_cons, List.length_append]
            omega
          obtain ⟨phrase, rfl⟩ := ih inner hlt hinner hends
          exact ⟨.group phrase, back, by simp [Phrase.lexemes], hback⟩
      | closing => exact absurd hsound Sound.not_closing

/-- Sound lexemes behind a sum make it longer, up to their end. -/
theorem exists_extension {lexemes : List Lexeme}
    (ih : ∀ inner : List Lexeme, inner.length < lexemes.length → Sound inner →
      EndsWell (spell inner) → ∃ phrase : Phrase .sum, phrase.lexemes = inner)
    (lhs : Phrase .sum) (hsound : Sound lexemes)
    (hchain : (tokens (lhs.lexemes ++ lexemes)).IsChain fun a b => a.isOperand ≠ b.isOperand)
    (hlast : ∀ op, lexemes.getLast? ≠ some (.token (.operator op))) :
    ∃ phrase : Phrase .sum, phrase.lexemes = lhs.lexemes ++ lexemes := by
  induction hn : lexemes.length using Nat.strongRecOn generalizing lexemes lhs with
  | ind n hrec =>
      subst hn
      obtain ⟨left, hleft, hleft'⟩ := lhs.alternate_tokens.last
      have hjoint : ∀ b ∈ (tokens lexemes).head?, left.isOperand ≠ b.isOperand := by
        rw [tokens_append] at hchain
        exact (List.isChain_append.1 hchain).2.2 left hleft
      cases lexemes with
      | nil => exact ⟨lhs, by simp⟩
      | cons lexeme rest =>
          cases lexeme with
          | token token =>
              -- behind a sum stands an operator, and behind that a factor
              obtain ⟨op, rfl⟩ : ∃ op, token = .operator op := by
                apply eq_operator_of_isOperand
                have := hjoint token rfl
                simpa [hleft'] using this
              have hne : rest ≠ [] := by
                rintro rfl
                exact hlast op rfl
              obtain ⟨factor, back, rfl, hback⟩ := exists_factor
                (fun inner hlt => ih inner (Nat.lt_succ_of_lt hlt)) hsound.tail hne
                hsound.not_operator_twice
              have hpos := factor.length_lexemes_pos
              have hlt : back.length <
                  (.token (.operator op) :: (factor.lexemes ++ back)).length := by
                simp only [List.length_cons, List.length_append]
                omega
              have hwhole : (lhs.extend op factor).lexemes ++ back =
                  lhs.lexemes ++ .token (.operator op) :: (factor.lexemes ++ back) := by
                simp [Phrase.lexemes_extend]
              obtain ⟨phrase, hphrase⟩ := hrec back.length hlt
                (fun inner hinner => ih inner (hinner.trans hlt))
                (lhs.extend op factor) hback (by rw [hwhole]; exact hchain) (by
                  intro other hother
                  refine hlast other ?_
                  rw [← List.cons_append, List.getLast?_append, hother]
                  rfl) rfl
              exact ⟨phrase, hphrase.trans hwhole⟩
          | opening =>
              obtain ⟨factor, back, hback, -⟩ := exists_factor ih hsound (by simp) (by simp)
              obtain ⟨right, hright, hright'⟩ := factor.alternate_tokens.head
              have hhead : (tokens (.opening :: rest)).head? = some right := by
                rw [hback, tokens_append, List.head?_append, hright]
                rfl
              exact absurd (hleft'.trans hright'.symm) (hjoint right hhead)
          | closing => exact absurd hsound Sound.not_closing

/-- Sound lexemes whose text ends well are the lexemes of a sum. -/
theorem exists_phrase {lexemes : List Lexeme} (hsound : Sound lexemes)
    (hends : EndsWell (spell lexemes)) :
    ∃ phrase : Phrase .sum, phrase.lexemes = lexemes := by
  induction hn : lexemes.length using Nat.strongRecOn generalizing lexemes with
  | ind n hrec =>
      subst hn
      have ih : ∀ inner : List Lexeme, inner.length < lexemes.length → Sound inner →
          EndsWell (spell inner) → ∃ phrase : Phrase .sum, phrase.lexemes = inner :=
        fun inner hlt hinner hinner' => hrec inner.length hlt hinner hinner' rfl
      have hne : lexemes ≠ [] := by
        rintro rfl
        exact hends.ne_nil rfl
      have hlast := getLast?_ne_operator hends
      obtain ⟨factor, back, rfl, hback⟩ := exists_factor ih hsound hne (head?_ne_operator hends)
      have hle : back.length ≤ (factor.lexemes ++ back).length := by
        simp only [List.length_append]
        omega
      refine exists_extension (fun inner hlt => ih inner (hlt.trans_le hle))
        (.product (.factor factor)) hback ?_ ?_
      · exact hsound.chain
      · intro op hop
        refine hlast op ?_
        rw [List.getLast?_append, hop]
        rfl

/-! ### From phrases to sound groups -/

namespace Phrase

theorem endsWell_of_plain {token : Token} (h : (Lexeme.token token).Plain)
    (ho : token.isOperand = true) : EndsWell token.text.toList := by
  obtain ⟨hne, hmarks⟩ := h.of_isOperand ho
  refine ⟨hne, fun c hc => ?_, fun c hc => ?_⟩
  · exact isOperator_of_isMark (hmarks c (List.mem_of_mem_head? hc))
  · exact isOperator_of_isMark (hmarks c (List.mem_of_mem_getLast? hc))

/-- The text of a phrase with plain operands has sound groups and ends well. -/
theorem grouped_text {level : Level} (phrase : Phrase level)
    (h : ∀ lexeme ∈ phrase.lexemes, lexeme.Plain) :
    Grouped phrase.text ∧ EndsWell phrase.text := by
  induction phrase with
  | number digits =>
      have hplain : (Lexeme.token (.number digits)).Plain := h _ (by simp [lexemes])
      exact ⟨.of_forall_ne hplain.ne_parenthesis, endsWell_of_plain hplain rfl⟩
  | «variable» name =>
      have hplain : (Lexeme.token (.variable name)).Plain := h _ (by simp [lexemes])
      exact ⟨.of_forall_ne hplain.ne_parenthesis, endsWell_of_plain hplain rfl⟩
  | group inner ih =>
      obtain ⟨hinner, hends⟩ := ih fun l hl => h l (by simp [lexemes, hl])
      refine ⟨.group hinner hends .nil, by simp [text], ?_, ?_⟩
      · intro c hc
        obtain rfl : c = '(' := by simpa [text] using hc.symm
        decide
      · intro c hc
        obtain rfl : c = ')' := by simpa [text, List.getLast?_cons] using hc.symm
        decide
  | factor body ih => exact ih h
  | times lhs rhs ihl ihr =>
      obtain ⟨hl, hl'⟩ := ihl fun l hm => h l (by simp [lexemes, hm])
      obtain ⟨hr, hr'⟩ := ihr fun l hm => h l (by simp [lexemes, hm])
      exact ⟨hl.append (.char (by decide) (by decide) hr), hl'.append_cons hr'⟩
  | product body ih => exact ih h
  | join lhs op additive rhs ihl ihr =>
      obtain ⟨hl, hl'⟩ := ihl fun l hm => h l (by simp [lexemes, hm])
      obtain ⟨hr, hr'⟩ := ihr fun l hm => h l (by simp [lexemes, hm])
      have hsign := sign_ne_parenthesis op
      exact ⟨hl.append (.char hsign.1 hsign.2 hr), hl'.append_cons hr'⟩

end Phrase

end HatCircle
