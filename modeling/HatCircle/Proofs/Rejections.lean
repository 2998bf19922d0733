import HatCircle.Proofs.Acceptance
import HatCircle.Proofs.TokenPlaces

/-!
# Which check rejects a text

A text is rejected by the first check that finds a fault. `Rejects` is the counterpart of
`Accepted`: it has a case for each check, which says that the checks before it have been passed,
and a text is rejected for a reason exactly if one of the cases gives that reason
(`check_eq_error_iff`).

The reasons that the checks can give are kept apart by what they are about
(`Rejection.Concern`), so in most cases the reason tells the check. Characters alone are the
concern of two of them: the check of characters, and the lexer, which may stop at a character.
-/

namespace HatCircle

/-- A check of the text finds a fault and gives this reason, and all checks before it are
passed. -/
inductive Puzzle.Rejects (puzzle : Puzzle) (text : List Char) : Rejection → Prop where
  | empty (nothing : text = []) : puzzle.Rejects text .empty
  | groups {rejection : Rejection} (fault : checkParentheses text = .error rejection) :
      puzzle.Rejects text rejection
  | charset {rejection : Rejection} (grouped : Grouped text)
      (fault : checkCharset puzzle text = .error rejection) : puzzle.Rejects text rejection
  | brackets {rejection : Rejection} (grouped : Grouped text)
      (charset : checkCharset puzzle text = .ok ())
      (fault : checkBrackets puzzle (maskWords puzzle text) = .error rejection) :
      puzzle.Rejects text rejection
  | operand (something : text ≠ []) (grouped : Grouped text) (legible : puzzle.Legible text)
      (fault : puzzle.hasOperand text = false) : puzzle.Rejects text .noOperand
  | lexemes {error : LexError} (grouped : Grouped text) (legible : puzzle.Legible text)
      (operand : puzzle.hasOperand text = true) (fault : lex puzzle text = .error error) :
      puzzle.Rejects text (.invalidCharacters (String.ofList [error.char]))
  | order {rejection : Rejection} {lexemes : List Lexeme} (something : text ≠ [])
      (grouped : Grouped text) (legible : puzzle.Legible text)
      (operand : puzzle.hasOperand text = true) (splits : Splits puzzle text lexemes)
      (fault : checkTokens (Lexeme.tokens lexemes) = .error rejection) :
      puzzle.Rejects text rejection

section Sequences

variable {ε α : Type}

theorem check_then_eq_error_iff (check : Except ε Unit) (next : Except ε α) (e : ε) :
    (check >>= fun _ => next) = .error e ↔
      check = .error e ∨ check = .ok () ∧ next = .error e := by
  cases check with
  | error e' => simp [bind, Except.bind]
  | ok => simp [bind, Except.bind]

theorem guard_then_eq_error_iff (c : Bool) (e e' : ε) (next : Except ε α) :
    (if c = true then (throw e : Except ε Unit) >>= fun _ => next else next) = .error e' ↔
      c = true ∧ e = e' ∨ c = false ∧ next = .error e' := by
  cases c with
  | true => simp [bind, Except.bind, throw, throwThe, MonadExceptOf.throw]
  | false => simp

end Sequences

theorem checkParentheses_nil : checkParentheses [] = .ok () := rfl

theorem checkLexemes_eq_error_iff (puzzle : Puzzle) (source : String) (rejection : Rejection) :
    checkLexemes puzzle source = .error rejection ↔
      puzzle.Rejects (Text.compact source.toList) rejection := by
  unfold checkLexemes
  generalize Text.compact source.toList = text
  simp only [check_then_eq_error_iff, guard_then_eq_error_iff, checkParentheses_eq_ok_iff]
  constructor
  · rintro (⟨hnil, rfl⟩ | ⟨hne, hgroups | ⟨hgrouped, hcharset | ⟨hcharset, hbrackets |
      ⟨hbrackets, ⟨hoperand, rfl⟩ | ⟨hoperand, hlexed⟩⟩⟩⟩⟩)
    · exact .empty (by simpa using hnil)
    · exact .groups hgroups
    · exact .charset hgrouped hcharset
    · exact .brackets hgrouped hcharset hbrackets
    · exact .operand (by simpa using hne) hgrouped ⟨hcharset, hbrackets⟩ (by simpa using hoperand)
    · have hlegible : puzzle.Legible text := ⟨hcharset, hbrackets⟩
      have hoperand : puzzle.hasOperand text = true := by simpa using hoperand
      cases hlex : lex puzzle text with
      | error error =>
          rw [hlex] at hlexed
          obtain rfl := Except.error.inj hlexed
          exact .lexemes hgrouped hlegible hoperand hlex
      | ok lexemes =>
          rw [hlex] at hlexed
          have hsplits := (lexAt_eq_ok_iff ..).1 hlex
          rcases (check_then_eq_error_iff ..).1 hlexed with htokens | ⟨-, hreturn⟩
          · exact .order (by simpa using hne) hgrouped hlegible hoperand hsplits htokens
          · cases hreturn
  · intro h
    cases h with
    | empty nothing => exact .inl ⟨by simp [nothing], rfl⟩
    | groups fault =>
        refine .inr ⟨?_, .inl fault⟩
        cases text with
        | nil => cases checkParentheses_nil.symm.trans fault
        | cons c rest => rfl
    | charset grouped fault =>
        refine .inr ⟨?_, .inr ⟨grouped, .inl fault⟩⟩
        cases text with
        | nil => cases (Puzzle.WellFormed.legible_nil puzzle).charset.symm.trans fault
        | cons c rest => rfl
    | brackets grouped charset fault =>
        refine .inr ⟨?_, .inr ⟨grouped, .inr ⟨charset, .inl fault⟩⟩⟩
        cases text with
        | nil => cases (Puzzle.WellFormed.legible_nil puzzle).brackets.symm.trans fault
        | cons c rest => rfl
    | operand something grouped legible fault =>
        exact .inr ⟨by simpa using something, .inr ⟨grouped, .inr ⟨legible.charset,
          .inr ⟨legible.brackets, .inl ⟨by simpa using fault, rfl⟩⟩⟩⟩⟩
    | lexemes grouped legible operand fault =>
        refine .inr ⟨?_, .inr ⟨grouped, .inr ⟨legible.charset,
          .inr ⟨legible.brackets, .inr ⟨by simpa using operand, ?_⟩⟩⟩⟩⟩
        · cases text with
          | nil => simp [lex, lexAt] at fault
          | cons c rest => rfl
        · rw [fault]
          rfl
    | order something grouped legible operand splits fault =>
        refine .inr ⟨by simpa using something, .inr ⟨grouped, .inr ⟨legible.charset,
          .inr ⟨legible.brackets, .inr ⟨by simpa using operand, ?_⟩⟩⟩⟩⟩
        have hlex : lex puzzle text = .ok _ := (lexAt_eq_ok_iff ..).2 splits
        rw [hlex]
        exact (check_then_eq_error_iff ..).2 (.inl fault)

theorem check_eq_error_iff (puzzle : Puzzle) (source : String) (rejection : Rejection) :
    check puzzle source = .error rejection ↔
      puzzle.Rejects (Text.compact source.toList) rejection := by
  rw [← checkLexemes_eq_error_iff, check]
  cases checkLexemes puzzle source with
  | error other => simp [Except.map]
  | ok lexemes => simp [Except.map]

/-! ### What a reason is about -/

inductive Rejection.Concern where
  | presence
  | groups
  | characters
  | brackets
  | tokens
deriving DecidableEq, Repr

def Rejection.concern : Rejection → Rejection.Concern
  | .empty => .presence
  | .unbalancedParentheses => .groups
  | .emptyParentheses => .groups
  | .operatorOnlyParentheses => .groups
  | .leadingOperatorInParentheses => .groups
  | .trailingOperatorInParentheses => .groups
  | .invalidCharacters _ => .characters
  | .malformedBracket _ => .brackets
  | .invalidBracketContent _ => .brackets
  | .noOperand => .tokens
  | .tooManyTokens .. => .tokens
  | .leadingOperator => .tokens
  | .trailingOperator => .tokens
  | .consecutiveOperators .. => .tokens
  | .missingOperator .. => .tokens
  | .danglingOperator _ => .tokens

section Concerns

variable {puzzle : Puzzle} {text : List Char} {rejection : Rejection}

theorem concern_of_checkGroup {content : List Char} (h : checkGroup content = .error rejection) :
    rejection.concern = .groups := by
  unfold checkGroup at h
  split at h
  · split at h
    · cases h
      rfl
    · split at h
      · cases h
        rfl
      · split at h
        · cases h
          rfl
        · cases h
  · cases h
    rfl

theorem concern_of_scanGroups {whole : List Char} {opened : List Nat} {place : Nat}
    (h : scanGroups whole opened place text = .error rejection) : rejection.concern = .groups := by
  induction text generalizing opened place with
  | nil =>
      unfold scanGroups at h
      split at h
      · cases h
      · cases h
        rfl
  | cons c rest ih =>
      unfold scanGroups at h
      split at h
      · exact ih h
      · split at h
        · split at h
          · cases h
            rfl
          · rcases (check_then_eq_error_iff ..).1 h with hgroup | ⟨-, hrest⟩
            · exact concern_of_checkGroup hgroup
            · exact ih hrest
        · exact ih h

theorem concern_of_checkCharset (h : checkCharset puzzle text = .error rejection) :
    rejection.concern = .characters := by
  unfold checkCharset at h
  split at h
  · cases h
  · cases h
    rfl

theorem concern_of_checkBrackets (h : checkBrackets puzzle text = .error rejection) :
    rejection.concern = .brackets := by
  obtain ⟨_, _, _, _, hfault⟩ := (checkBrackets_eq_error_iff ..).1 h
  cases hfault <;> rfl

theorem concern_of_checkTokens {tokens : List Token} (h : checkTokens tokens = .error rejection) :
    rejection.concern = .tokens := by
  cases fault_of_checkTokens h <;> rfl

/-- A reason that is about brackets comes from the check of brackets. -/
theorem Puzzle.Rejects.of_brackets (h : puzzle.Rejects text rejection)
    (hconcern : rejection.concern = .brackets) :
    checkCharset puzzle text = .ok () ∧
      checkBrackets puzzle (maskWords puzzle text) = .error rejection := by
  cases h with
  | empty => cases hconcern
  | groups fault => cases (concern_of_scanGroups fault).symm.trans hconcern
  | charset _ fault => cases (concern_of_checkCharset fault).symm.trans hconcern
  | brackets _ charset fault => exact ⟨charset, fault⟩
  | operand => cases hconcern
  | lexemes => cases hconcern
  | order _ _ _ _ _ fault => cases (concern_of_checkTokens fault).symm.trans hconcern

/-- A reason that is about characters comes from the check of characters, or else from the lexer
and names the character at which it stops. -/
theorem Puzzle.Rejects.of_characters (h : puzzle.Rejects text rejection)
    (hconcern : rejection.concern = .characters) :
    checkCharset puzzle text = .error rejection ∨
      puzzle.Legible text ∧ ∃ error, lex puzzle text = .error error ∧
        rejection = .invalidCharacters (String.ofList [error.char]) := by
  cases h with
  | empty => cases hconcern
  | groups fault => cases (concern_of_scanGroups fault).symm.trans hconcern
  | charset _ fault => exact .inl fault
  | brackets _ _ fault => cases (concern_of_checkBrackets fault).symm.trans hconcern
  | operand => cases hconcern
  | lexemes _ legible _ fault => exact .inr ⟨legible, _, fault, rfl⟩
  | order _ _ _ _ _ fault => cases (concern_of_checkTokens fault).symm.trans hconcern

end Concerns

end HatCircle
