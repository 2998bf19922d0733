import HatCircle.Proofs.Acceptance

/-!
# Texts without digits

What a text may hold is settled by the names and the bracket letters of the puzzle, and for
digits by the number of colours. A text without digits is thus accepted in all puzzles with the
same tables, however many people and colours they have (`SameTables.accepted`). This holds for
puzzles that are not well-formed as well, such as those with bracket letters and too few colours
for the distances.
-/

namespace HatCircle

/-- Two puzzles with the same names and the same bracket letters. -/
structure Puzzle.SameTables (puzzle other : Puzzle) : Prop where
  vocabulary : puzzle.vocabulary = other.vocabulary
  brackets : puzzle.brackets = other.brackets

namespace Puzzle.SameTables

variable {puzzle other : Puzzle} (same : puzzle.SameTables other)
include same

theorem words_eq : puzzle.words = other.words := by
  simp only [Puzzle.words, same.vocabulary]

theorem wordAt?_eq (text : List Char) : puzzle.wordAt? text = other.wordAt? text := by
  simp only [Puzzle.wordAt?, same.words_eq]

theorem isBracketLetter_eq (c : Char) : puzzle.isBracketLetter c = other.isBracketLetter c := by
  simp only [Puzzle.isBracketLetter, Puzzle.family?, same.brackets]

theorem maskWords_eq (text : List Char) : maskWords puzzle text = maskWords other text := by
  fun_induction maskWords puzzle text with
  | case1 => rw [maskWords]
  | case2 c rest word hword ih =>
      rw [same.wordAt?_eq] at hword
      rw [maskWords, hword, ih]
  | case3 c rest hword ih =>
      rw [same.wordAt?_eq] at hword
      rw [maskWords, hword, ih]

theorem bracketed {text : List Char} (h : puzzle.Bracketed text) : other.Bracketed text := by
  obtain ⟨parts, rfl, hparts⟩ := h
  refine ⟨parts, rfl, ?_⟩
  intro part hpart
  cases hparts part hpart with
  | «variable» hfamily hrange => exact .variable (same.brackets ▸ hfamily) hrange
  | char hunlisted hopening hclosing => exact .char (same.brackets ▸ hunlisted) hopening hclosing

theorem first?_eq (c : Char) (rest : List Char) :
    Lexeme.first? puzzle c rest = Lexeme.first? other c rest := by
  simp only [Lexeme.first?, Puzzle.nameAt?, Puzzle.bracketAt?, same.isBracketLetter_eq,
    same.vocabulary]

theorem splits {text : List Char} {lexemes : List Lexeme} (h : Splits puzzle text lexemes) :
    Splits other text lexemes := by
  induction h with
  | nil => exact .nil
  | cons first text _ ih => exact .cons (same.first?_eq .. ▸ first) text ih

theorem allows_eq {c : Char} (h : c.isDigit = false) : puzzle.allows c = other.allows c := by
  simp [Puzzle.allows, Puzzle.allowsDigit, Numeral.digit?, h, same.isBracketLetter_eq,
    same.vocabulary, same.brackets]

theorem accepted {text : List Char} {lexemes : List Lexeme}
    (hdigits : text.any Char.isDigit = false) (h : puzzle.Accepted text lexemes) :
    other.Accepted text lexemes := by
  have hwithout : puzzle.withoutWords text = other.withoutWords text := by
    simp only [Puzzle.withoutWords, same.words_eq]
  refine ⟨h.grouped, ⟨?_, ?_⟩, ?_, same.splits h.splits, h.limit, h.order⟩
  · rw [checkCharset_eq_ok_iff, ← hwithout]
    intro c hc
    have hdigit := List.any_eq_false.1 hdigits c (mem_of_mem_withoutWords hc)
    rw [Bool.not_eq_true] at hdigit
    rw [← same.allows_eq hdigit]
    exact (checkCharset_eq_ok_iff ..).1 h.legible.charset c hc
  · rw [← same.maskWords_eq, checkBrackets_eq_ok_iff]
    exact same.bracketed ((checkBrackets_eq_ok_iff ..).1 h.legible.brackets)
  · have hoperand := h.operand
    rwa [Puzzle.hasOperand, same.vocabulary] at hoperand

end Puzzle.SameTables

end HatCircle
