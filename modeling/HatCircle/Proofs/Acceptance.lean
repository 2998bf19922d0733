import HatCircle.Proofs.Charset

/-!
# The language of a puzzle

The check of a text is a sequence of passes, each of them blind to most of the grammar.
`Accepted` collects what they ask for, with each pass replaced by what it means, and
`checkLexemes_eq_ok_iff` shows that nothing is lost.

In a well-formed puzzle the passes amount to the grammar: a text is accepted exactly when
it is, blanks apart, the text of a phrase of the puzzle with at most `maxTokens` tokens
(`check_isOk_iff`).
-/

namespace HatCircle

/-! ### The passes together -/

/-- A text passes every check and splits into these lexemes. -/
structure Puzzle.Accepted (puzzle : Puzzle) (text : List Char) (lexemes : List Lexeme) :
    Prop where
  grouped : Grouped text
  legible : puzzle.Legible text
  operand : puzzle.hasOperand text = true
  splits : Splits puzzle text lexemes
  limit : (Lexeme.tokens lexemes).length ≤ maxTokens
  order : Token.Alternate (Lexeme.tokens lexemes)

/-- The empty text splits into nothing, and nothing has no first token. -/
theorem Puzzle.Accepted.ne_nil {puzzle : Puzzle} {text : List Char} {lexemes : List Lexeme}
    (h : puzzle.Accepted text lexemes) : text ≠ [] := by
  rintro rfl
  obtain ⟨token, htoken, -⟩ := h.order.head
  have hsplits := h.splits
  cases hsplits
  cases htoken

section Sequences

variable {ε α : Type}

theorem check_then_eq_ok_iff (check : Except ε Unit) (next : Except ε α) (a : α) :
    (check >>= fun _ => next) = .ok a ↔ check = .ok () ∧ next = .ok a := by
  cases check with
  | error e => simp [bind, Except.bind]
  | ok => simp [bind, Except.bind]

theorem guard_then_eq_ok_iff (c : Bool) (e : ε) (next : Except ε α) (a : α) :
    (if c = true then (throw e : Except ε Unit) >>= fun _ => next else next) = .ok a ↔
      c = false ∧ next = .ok a := by
  cases c with
  | true => simp [bind, Except.bind, throw, throwThe, MonadExceptOf.throw]
  | false => simp

end Sequences

theorem checkLexemes_eq_ok_iff (puzzle : Puzzle) (source : String) (lexemes : List Lexeme) :
    checkLexemes puzzle source = .ok lexemes ↔
      puzzle.Accepted (Text.compact source.toList) lexemes := by
  unfold checkLexemes
  generalize Text.compact source.toList = text
  simp only [check_then_eq_ok_iff, guard_then_eq_ok_iff, checkParentheses_eq_ok_iff]
  constructor
  · rintro ⟨-, hgrouped, hcharset, hbrackets, hoperand, hlexed⟩
    cases hlex : lex puzzle text with
    | error error =>
        rw [hlex] at hlexed
        cases hlexed
    | ok found =>
        rw [hlex] at hlexed
        obtain ⟨htokens, hfound⟩ := (check_then_eq_ok_iff ..).1 hlexed
        obtain rfl : found = lexemes := by simpa [pure, Except.pure] using hfound
        obtain ⟨hlimit, horder⟩ := (checkTokens_eq_ok_iff _).1 htokens
        exact ⟨hgrouped, ⟨hcharset, hbrackets⟩, by simpa using hoperand,
          (lexAt_eq_ok_iff ..).1 hlex, hlimit, horder⟩
  · intro h
    have hlex : lex puzzle text = .ok lexemes := (lexAt_eq_ok_iff ..).2 h.splits
    have htokens := (checkTokens_eq_ok_iff _).2 ⟨h.limit, h.order⟩
    refine ⟨by simpa using h.ne_nil, h.grouped, h.legible.charset, h.legible.brackets,
      by simp [h.operand], ?_⟩
    rw [hlex]
    exact (check_then_eq_ok_iff ..).2 ⟨htokens, rfl⟩

theorem check_eq_ok_iff (puzzle : Puzzle) (source : String) (tokens : List Token) :
    check puzzle source = .ok tokens ↔
      ∃ lexemes, puzzle.Accepted (Text.compact source.toList) lexemes ∧
        Lexeme.tokens lexemes = tokens := by
  simp only [← checkLexemes_eq_ok_iff, check]
  cases checkLexemes puzzle source with
  | error rejection => simp [Except.map]
  | ok lexemes => simp [Except.map]

/-! ### From the passes to the grammar -/

/-- The numbers and variables among the lexemes are those of the puzzle. -/
def Lexeme.Admitted (puzzle : Puzzle) : Lexeme → Prop
  | .token (.number digits) => puzzle.IsNumber digits.toList
  | .token (.variable name) => puzzle.IsVariable name
  | _ => True

theorem Phrase.admitted_iff_lexemes {puzzle : Puzzle} {level : Level} (phrase : Phrase level) :
    phrase.Admitted puzzle ↔ ∀ lexeme ∈ phrase.lexemes, lexeme.Admitted puzzle := by
  induction phrase with
  | number digits => simp [lexemes, Phrase.Admitted, Lexeme.Admitted]
  | «variable» name => simp [lexemes, Phrase.Admitted, Lexeme.Admitted]
  | group inner ih => simp [lexemes, Phrase.Admitted, Lexeme.Admitted, ih, or_imp, forall_and]
  | factor body ih => exact ih
  | times lhs rhs ihl ihr =>
      simp [lexemes, Phrase.Admitted, Lexeme.Admitted, ihl, ihr, or_imp, forall_and]
  | product body ih => exact ih
  | join lhs op additive rhs ihl ihr =>
      simp [lexemes, Phrase.Admitted, Lexeme.Admitted, ihl, ihr, or_imp, forall_and]

namespace Lexeme

theorem endsWell_text {lexeme : Lexeme} (hplain : lexeme.Plain)
    (hoperand : ∀ token ∈ lexeme.token?, token.isOperand = true) :
    EndsWell lexeme.text.toList := by
  cases lexeme with
  | token token => exact Phrase.endsWell_of_plain hplain (hoperand token rfl)
  | opening => exact .singleton (by decide)
  | closing => exact .singleton (by decide)

theorem eq_token_of_token? {lexeme : Lexeme} {token : Token} (h : token ∈ lexeme.token?) :
    lexeme = .token token := by
  cases lexeme with
  | token other => rw [Option.some.inj h]
  | opening => cases h
  | closing => cases h

/-- The text of plain lexemes ends well if the first and the last token are operands. -/
theorem endsWell_spell {lexemes : List Lexeme} (hplain : ∀ lexeme ∈ lexemes, lexeme.Plain)
    (horder : Token.Alternate (tokens lexemes)) : EndsWell (spell lexemes) := by
  obtain ⟨first, hfirst, hfirst'⟩ := horder.head
  obtain ⟨last, hlast, hlast'⟩ := horder.last
  have hne : lexemes ≠ [] := by
    rintro rfl
    cases hfirst
  have hleft : ∃ lexeme rest, lexemes = lexeme :: rest ∧ EndsWell lexeme.text.toList := by
    obtain ⟨lexeme, rest, rfl⟩ := List.exists_cons_of_ne_nil hne
    refine ⟨lexeme, rest, rfl, endsWell_text (hplain _ (by simp)) fun token htoken => ?_⟩
    obtain rfl := eq_token_of_token? htoken
    obtain rfl : token = first := by simpa using hfirst
    exact hfirst'
  have hright : ∃ front lexeme, lexemes = front ++ [lexeme] ∧ EndsWell lexeme.text.toList := by
    obtain ⟨front, lexeme, hconcat⟩ := (List.eq_nil_or_concat lexemes).resolve_left hne
    rw [List.concat_eq_append] at hconcat
    subst hconcat
    refine ⟨front, lexeme, rfl, endsWell_text (hplain _ (by simp)) fun token htoken => ?_⟩
    obtain rfl := eq_token_of_token? htoken
    obtain rfl : token = last := by simpa using hlast
    exact hlast'
  constructor
  · obtain ⟨lexeme, rest, rfl, hends⟩ := hleft
    rw [spell_cons]
    exact List.append_ne_nil_of_left_ne_nil hends.ne_nil _
  · intro c hc
    obtain ⟨lexeme, rest, rfl, hends⟩ := hleft
    rw [spell_cons, List.head?_append_of_ne_nil _ hends.ne_nil] at hc
    exact hends.head c hc
  · intro c hc
    obtain ⟨front, lexeme, rfl, hends⟩ := hright
    rw [spell_append, spell_cons, spell_nil, List.append_nil,
      List.getLast?_append_of_ne_nil _ hends.ne_nil] at hc
    exact hends.last c hc

end Lexeme

namespace Puzzle.Accepted

variable {puzzle : Puzzle} {text : List Char} {lexemes : List Lexeme}

/-- The digits of an accepted text are below the number of colours: words hold no digits,
so the check of characters has seen each of them. -/
theorem digit_lt (wf : puzzle.WellFormed) (h : puzzle.Accepted text lexemes) {c : Char}
    (hmem : c ∈ text) (hdigit : c.isDigit = true) :
    c.toNat - '0'.toNat < puzzle.base.toNat := by
  have halpha := isAlpha_of_isDigit hdigit
  have hallows := (checkCharset_eq_ok_iff ..).1 h.legible.charset c
    (mem_withoutWords wf halpha hmem)
  have hmark := isMark_of_isDigit hdigit
  have hletter := wf.isBracketLetter_of_not_isAlpha halpha
  have hnamed := wf.not_named_of_not_isAlpha halpha
  have hbracket := ne_bracket hdigit (by decide) (by decide)
  have hparenthesis := ne_parenthesis_of_isMark hmark
  have hallowed : puzzle.allowsDigit c = true := by
    simpa [Puzzle.allows, hparenthesis, isOperator_of_isMark hmark, hletter, hnamed, hbracket]
      using hallows
  simpa [Puzzle.allowsDigit, Numeral.digit?, hdigit] using hallowed

theorem text_eq {level : Level} {phrase : Phrase level}
    (h : puzzle.Accepted text phrase.lexemes) : phrase.text = text := by
  rw [← phrase.spell_lexemes, h.splits.spell_eq]

theorem exists_phrase (hu : puzzle.Unmarked) (h : puzzle.Accepted text lexemes) :
    ∃ phrase : Phrase .sum, phrase.lexemes = lexemes := by
  have hplain : ∀ lexeme ∈ lexemes, lexeme.Plain := fun lexeme hmem =>
    (h.splits.lexed lexeme hmem).plain hu
  have hsound : Lexeme.Sound lexemes :=
    ⟨hplain, by rw [h.splits.spell_eq]; exact h.grouped, h.order.chain⟩
  exact HatCircle.exists_phrase hsound (Lexeme.endsWell_spell hplain h.order)

theorem exists_admitted (wf : puzzle.WellFormed) (h : puzzle.Accepted text lexemes) :
    ∃ phrase : Phrase .sum, phrase.Admitted puzzle ∧ phrase.lexemes = lexemes := by
  obtain ⟨phrase, hphrase⟩ := h.exists_phrase wf.unmarked
  refine ⟨phrase, phrase.admitted_iff_lexemes.2 ?_, hphrase⟩
  intro lexeme hmem
  rw [hphrase] at hmem
  have hlexed := h.splits.lexed lexeme hmem
  cases lexeme with
  | token token =>
      cases token with
      | number digits =>
          refine ⟨hlexed.1, fun c hc => ⟨hlexed.2 c hc, h.digit_lt wf ?_ (hlexed.2 c hc)⟩⟩
          rw [← h.splits.spell_eq]
          exact List.mem_flatMap.2 ⟨_, hmem, hc⟩
      | «variable» name => exact hlexed
      | operator op => trivial
  | opening => trivial
  | closing => trivial

end Puzzle.Accepted

/-! ### From the grammar to the passes -/

theorem occursIn_iff (word text : List Char) : Text.occursIn word text = true ↔ word <:+: text := by
  induction text with
  | nil => simp [Text.occursIn]
  | cons c rest ih => simp [Text.occursIn, ih, List.infix_cons_iff]

theorem hasOperand_iff (puzzle : Puzzle) (text : List Char) :
    puzzle.hasOperand text = true ↔
      (∃ c ∈ text, c.isDigit = true) ∨
        ∃ entry ∈ puzzle.vocabulary, entry.name.toList <:+: text := by
  simp only [Puzzle.hasOperand, Bool.or_eq_true, List.any_eq_true, occursIn_iff]

/-- An operand is still there when more text is put around it. -/
theorem hasOperand_of_infix {puzzle : Puzzle} {inner text : List Char}
    (h : puzzle.hasOperand inner = true) (haround : inner <:+: text) :
    puzzle.hasOperand text = true := by
  rw [hasOperand_iff] at h ⊢
  rcases h with ⟨c, hc, hdigit⟩ | ⟨entry, hentry, hname⟩
  · exact .inl ⟨c, haround.subset hc, hdigit⟩
  · exact .inr ⟨entry, hentry, hname.trans haround⟩

namespace Phrase

variable {puzzle : Puzzle}

theorem hasOperand_text {level : Level} (phrase : Phrase level) (h : phrase.Admitted puzzle) :
    puzzle.hasOperand phrase.text = true := by
  induction phrase with
  | number digits =>
      obtain ⟨c, hc⟩ := List.exists_mem_of_ne_nil _ h.1
      exact (hasOperand_iff ..).2 (.inl ⟨c, hc, (h.2 c hc).1⟩)
  | «variable» name =>
      rw [hasOperand_iff]
      cases h with
      | word hentry => exact .inr ⟨_, hentry, List.infix_rfl⟩
      | @bracket family distance hfamily hrange =>
          have hdigit : distance.isDigit = true :=
            isDigit_of_isDistance ((isDistance_iff _).2 hrange)
          exact .inl ⟨distance, by simp [text], hdigit⟩
  | group inner ih => exact hasOperand_of_infix (ih h) ⟨['('], [')'], by simp [text]⟩
  | factor body ih => exact ih h
  | times lhs rhs ihl ihr => exact hasOperand_of_infix (ihl h.1) (List.prefix_append ..).isInfix
  | product body ih => exact ih h
  | join lhs op additive rhs ihl ihr =>
      exact hasOperand_of_infix (ihl h.1) (List.prefix_append ..).isInfix

theorem plain_lexemes (wf : puzzle.WellFormed) {level : Level} (phrase : Phrase level)
    (h : phrase.Admitted puzzle) : ∀ lexeme ∈ phrase.lexemes, lexeme.Plain := by
  intro lexeme hmem
  exact ((phrase.splits_text wf h).lexed lexeme hmem).plain wf.unmarked

/-- The text of a short phrase of the puzzle passes every check. -/
theorem accepted_text (wf : puzzle.WellFormed) {level : Level} (phrase : Phrase level)
    (h : phrase.Admitted puzzle) (hcount : phrase.tokenCount ≤ maxTokens) :
    puzzle.Accepted phrase.text phrase.lexemes := by
  have hgrouped := (phrase.grouped_text (phrase.plain_lexemes wf h)).1
  exact ⟨hgrouped, phrase.legible_text wf h, phrase.hasOperand_text h, phrase.splits_text wf h,
    by rwa [phrase.length_tokens], phrase.alternate_tokens⟩

theorem check_eq_ok (wf : puzzle.WellFormed) (phrase : Phrase .sum) (h : phrase.Admitted puzzle)
    (hcount : phrase.tokenCount ≤ maxTokens) {source : String}
    (htext : phrase.text = Text.compact source.toList) :
    check puzzle source = .ok (Lexeme.tokens phrase.lexemes) := by
  have haccepted := phrase.accepted_text wf h hcount
  rw [htext] at haccepted
  exact (check_eq_ok_iff ..).2 ⟨phrase.lexemes, haccepted, rfl⟩

end Phrase

/-! ### The language -/

/-- In a well-formed puzzle a text is accepted exactly when it is, blanks apart, the text
of a phrase of the puzzle that has at most twelve numbers, variables and operators. -/
theorem check_isOk_iff (puzzle : Puzzle) (wf : puzzle.WellFormed) (source : String) :
    (∃ tokens, check puzzle source = .ok tokens) ↔
      ∃ phrase : Phrase .sum, phrase.Admitted puzzle ∧
        phrase.text = Text.compact source.toList ∧ phrase.tokenCount ≤ 12 := by
  constructor
  · rintro ⟨tokens, htokens⟩
    obtain ⟨lexemes, haccepted, rfl⟩ := (check_eq_ok_iff ..).1 htokens
    obtain ⟨phrase, hadmitted, rfl⟩ := haccepted.exists_admitted wf
    refine ⟨phrase, hadmitted, ?_, ?_⟩
    · rw [← phrase.spell_lexemes, haccepted.splits.spell_eq]
    · rw [← phrase.length_tokens]
      exact haccepted.limit
  · rintro ⟨phrase, hadmitted, htext, hcount⟩
    exact ⟨_, phrase.check_eq_ok wf hadmitted hcount htext⟩

/-- The own place plus the hat of a neighbour is a formula of the circle of ten. -/
theorem check_isOk_ten : Puzzle.ten.WellFormed ∧ ∃ tokens, check .ten "i + l[1]" = .ok tokens := by
  refine ⟨Puzzle.wellFormed_ten, (check_isOk_iff .ten Puzzle.wellFormed_ten "i + l[1]").2 ?_⟩
  have hentry : (⟨"i", .ownIndex⟩ : NamedVariable) ∈ Puzzle.ten.vocabulary := by decide
  have hfamily : (⟨'l', 1⟩ : BracketFamily) ∈ Puzzle.ten.brackets := by decide
  have hrange : '1' ≤ '1' ∧ '1' ≤ '9' := by decide
  exact ⟨.join (.product (.factor (.variable "i"))) .add rfl (.factor (.variable "l[1]")),
    ⟨.word hentry, .bracket hfamily hrange⟩, by decide, by decide⟩

end HatCircle
