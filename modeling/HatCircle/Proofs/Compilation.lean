import HatCircle.Proofs.Guess
import HatCircle.Proofs.Recognition

/-!
# Checking is the only gate

A text is compiled in two steps: it is checked, and its lexemes are parsed. The parser has
errors of its own, but as long as names and bracket letters hold no parentheses and no
operators, none of them can follow a check that was passed. So compiling a text either
succeeds with the tokens of the check or fails with the rejection of the check
(`compile_cases`, `compile_gate`), whatever the names look like otherwise.

What a compiled formula is does not depend on the names at all: its tree is that of a phrase
whose lexemes the check has passed (`exists_builds_of_compile`).
-/

namespace HatCircle

/-! ### What a formula is -/

theorem Splits.digitRuns {puzzle : Puzzle} {text : List Char} {lexemes : List Lexeme}
    (h : Splits puzzle text lexemes) : Lexeme.DigitRuns lexemes := by
  intro digits hmem
  exact (h.lexed _ hmem).2

/-- A formula of any puzzle has the tree and the tokens of a phrase that the check passed. -/
theorem exists_builds_of_compile {puzzle : Puzzle} {source : String} {formula : Formula}
    (h : Formula.compile puzzle source = .ok formula) :
    ∃ phrase : Phrase .sum,
      puzzle.Accepted (Text.compact source.toList) phrase.lexemes ∧
        phrase.Builds puzzle formula.tree ∧
        formula.tokens = Lexeme.tokens phrase.lexemes ∧ formula.puzzle = puzzle := by
  obtain ⟨lexemes, haccepted, hparse, -, htokens, hpuzzle⟩ := (compile_eq_ok_iff ..).1 h
  obtain ⟨phrase, rfl, hbuilds⟩ := (parse_eq_ok_iff haccepted.splits.digitRuns _).1 hparse
  exact ⟨phrase, haccepted, hbuilds, htokens, hpuzzle⟩

/-! ### The gate -/

/-- A rejected text fails as it was rejected, in every puzzle. -/
theorem compile_of_check_eq_error {puzzle : Puzzle} {source : String} {rejection : Rejection}
    (h : check puzzle source = .error rejection) :
    Formula.compile puzzle source = .error (.rejected rejection) := by
  rw [check] at h
  rw [Formula.compile]
  cases hlexemes : checkLexemes puzzle source with
  | error other =>
      rw [hlexemes] at h
      obtain rfl := Except.error.inj h
      rfl
  | ok lexemes =>
      rw [hlexemes] at h
      cases h

/-- Compiling ends as checking does. -/
theorem compile_cases {puzzle : Puzzle} (hu : puzzle.Unmarked) (source : String) :
    (∃ formula, Formula.compile puzzle source = .ok formula ∧
      check puzzle source = .ok formula.tokens) ∨
    (∃ rejection, Formula.compile puzzle source = .error (.rejected rejection) ∧
      check puzzle source = .error rejection) := by
  cases hcheck : check puzzle source with
  | error rejection => exact .inr ⟨rejection, compile_of_check_eq_error hcheck, rfl⟩
  | ok tokens =>
      obtain ⟨lexemes, haccepted, rfl⟩ := (check_eq_ok_iff ..).1 hcheck
      obtain ⟨formula, hformula⟩ := exists_compile hu haccepted
      obtain ⟨others, haccepted', -, -, htokens, -⟩ := (compile_eq_ok_iff ..).1 hformula
      obtain rfl := haccepted.splits.unique haccepted'.splits
      exact .inl ⟨formula, hformula, by rw [htokens]⟩

/-- No rejection is filed under the code of the errors of the parser. -/
theorem Rejection.category_ne_parse (rejection : Rejection) : rejection.category ≠ "parse" := by
  cases rejection <;> simp [category]

/-- A text compiles exactly when it passes the check, and the formula has the tokens that
the check returns. A text that fails to compile is one that the check rejects; the failure
is reported under the category of that rejection, which is not the code of the parser. As long
as the products of directions and distances have 64 bits, no leaf of the tree wraps around on
the way. -/
theorem compile_gate {puzzle : Puzzle} (hu : puzzle.Unmarked) (source : String) :
    (∀ tokens, (∃ formula, Formula.compile puzzle source = .ok formula ∧
        formula.tokens = tokens) ↔ check puzzle source = .ok tokens) ∧
      (∀ failure, Formula.compile puzzle source = .error failure →
        ∃ rejection, check puzzle source = .error rejection ∧ failure = .rejected rejection ∧
          (failure.toError source).info.code = rejection.category ∧
          rejection.category ≠ "parse") ∧
      (puzzle.DistancesFit64 →
        ∀ token : Token, token.operand64 puzzle = some (token.operand puzzle)) := by
  rcases compile_cases hu source with ⟨formula, hformula, hcheck⟩ | ⟨rejection, hfails, hcheck⟩
  · rw [hformula, hcheck]
    refine ⟨?_, ?_, fun hfit => hfit.operand64_eq⟩
    · intro tokens
      simp
    · intro failure hfailure
      cases hfailure
  · rw [hfails, hcheck]
    refine ⟨?_, ?_, fun hfit => hfit.operand64_eq⟩
    · intro tokens
      simp
    · intro failure hfailure
      obtain rfl := Except.error.inj hfailure
      exact ⟨rejection, rfl, rfl, rfl, rejection.category_ne_parse⟩

/-- A puzzle with names that overlap, hold digits and brackets, or are not ASCII. -/
def Puzzle.tangled : Puzzle where
  kind := .two
  personCount := 3
  base := 3
  vocabulary := [⟨"é[2", .ownIndex⟩, ⟨"ab", .sumOfOthers⟩, ⟨"a", .ownIndex⟩, ⟨"b2", .neighbor 1⟩]
  brackets := [⟨'b', 1⟩]
  strategy := .exhaustive

theorem Puzzle.unmarked_tangled : Puzzle.tangled.Unmarked := by decide

theorem Puzzle.distancesFit64_tangled : Puzzle.tangled.DistancesFit64 := by
  intro family hfamily distance hlow hhigh
  obtain rfl := List.mem_singleton.1 hfamily
  simp only [one_mul]
  exact .of_small (by omega)

/-- In that puzzle, as in the built-in ones, the check decides: one text compiles, and one
is rejected, although each character of it belongs to a name. -/
theorem compile_tangled :
    Puzzle.ten.Unmarked ∧ Puzzle.two.Unmarked ∧ Puzzle.tangled.Unmarked ∧
      (∃ formula, Formula.compile .tangled "é[2 + ab×(b[1] - a)" = .ok formula ∧
        formula.tokens = [.variable "é[2", .operator .add, .variable "ab", .operator .mul,
          .variable "b[1]", .operator .sub, .variable "a"]) ∧
      (∀ failure, Formula.compile .tangled "ab2" = .error failure →
        (failure.toError "ab2").info.code = "missing-operator") ∧
      Puzzle.tangled.DistancesFit64 ∧ (Token.variable "b[9]").operand64 .tangled =
        some (.ok (.var "b[9]" (.neighbor 9))) := by
  refine ⟨Puzzle.wellFormed_ten.unmarked, Puzzle.wellFormed_two.unmarked,
    Puzzle.unmarked_tangled, ?_, ?_, Puzzle.distancesFit64_tangled, ?_⟩
  · exact ((compile_gate Puzzle.unmarked_tangled _).1 _).2 (by decide +kernel)
  · intro failure hfailure
    obtain ⟨rejection, hrejection, -, hcode, -⟩ :=
      (compile_gate Puzzle.unmarked_tangled _).2.1 failure hfailure
    have hmissing : check .tangled "ab2" = .error (.missingOperator "ab" "2") := by
      decide +kernel
    obtain rfl := Except.error.inj (hrejection.symm.trans hmissing)
    exact hcode
  · have hoperand : (Token.variable "b[9]").operand .tangled =
        .ok (.var "b[9]" (.neighbor 9)) := by decide +kernel
    rw [(compile_gate Puzzle.unmarked_tangled "b[9]").2.2 Puzzle.distancesFit64_tangled, hoperand]

end HatCircle
