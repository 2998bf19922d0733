import HatCircle.Proofs.Acceptance
import HatCircle.Proofs.Evaluation
import HatCircle.Proofs.Parsing

/-!
# From the text of a formula to a guess

Checking, splitting, parsing, reducing literals, looking up variables and evaluating a
tree come together here. The guess that a formula tells a person to make is the exact
value of its text, read as ordinary arithmetic and reduced by the number of colours
(`guess_eq_value`).
-/

namespace HatCircle

/-! ### Compiling -/

theorem compile_eq_ok_iff (puzzle : Puzzle) (source : String) (formula : Formula) :
    Formula.compile puzzle source = .ok formula ↔ ∃ lexemes,
      puzzle.Accepted (Text.compact source.toList) lexemes ∧
        parse puzzle lexemes = .ok formula.tree ∧ formula.source = source ∧
        formula.tokens = Lexeme.tokens lexemes ∧ formula.puzzle = puzzle := by
  simp only [← checkLexemes_eq_ok_iff, Formula.compile]
  cases checkLexemes puzzle source with
  | error rejection => simp
  | ok lexemes =>
      constructor
      · intro h
        simp only at h
        cases hparse : parse puzzle lexemes with
        | error error =>
            rw [hparse] at h
            cases h
        | ok tree =>
            rw [hparse] at h
            obtain rfl := Except.ok.inj h
            exact ⟨lexemes, rfl, hparse, rfl, rfl, rfl⟩
      · rintro ⟨found, hfound, hparse, rfl, htokens, rfl⟩
        obtain rfl := Except.ok.inj hfound
        simp only [hparse, ← htokens]

/-- An accepted text compiles: no lexemes that pass the checks trouble the parser. -/
theorem exists_compile {puzzle : Puzzle} (hu : puzzle.Unmarked) {source : String}
    {lexemes : List Lexeme} (h : puzzle.Accepted (Text.compact source.toList) lexemes) :
    ∃ formula, Formula.compile puzzle source = .ok formula := by
  obtain ⟨phrase, rfl⟩ := h.exists_phrase hu
  obtain ⟨tree, htree⟩ := phrase.exists_builds h.splits.lexed
  exact ⟨⟨source, Lexeme.tokens phrase.lexemes, tree, puzzle⟩,
    (compile_eq_ok_iff ..).2 ⟨_, h, parse_lexemes htree, rfl, rfl, rfl⟩⟩

/-- A text has one list of lexemes, whichever phrase it is taken for. -/
theorem Splits.unique {puzzle : Puzzle} {text : List Char} {lexemes others : List Lexeme}
    (h : Splits puzzle text lexemes) (h' : Splits puzzle text others) : lexemes = others := by
  rw [← lexAt_eq_ok_iff puzzle 0] at h h'
  exact Except.ok.inj (h.symm.trans h')

/-- The tree of a formula is the tree of each phrase with the text of the formula. -/
theorem builds_of_compile {puzzle : Puzzle} (wf : puzzle.WellFormed) {source : String}
    {formula : Formula} (h : Formula.compile puzzle source = .ok formula)
    {phrase : Phrase .sum} (hadmitted : phrase.Admitted puzzle)
    (htext : phrase.text = Text.compact source.toList) : phrase.Builds puzzle formula.tree := by
  obtain ⟨lexemes, haccepted, hparse, -, -, -⟩ := (compile_eq_ok_iff ..).1 h
  have hsplits := phrase.splits_text wf hadmitted
  obtain ⟨tree, htree⟩ := phrase.exists_builds hsplits.lexed
  rw [htext] at hsplits
  obtain rfl := haccepted.splits.unique hsplits
  obtain rfl := Except.ok.inj (hparse.symm.trans (parse_lexemes htree))
  exact htree

/-! ### Guessing -/

/-- An accepted text compiles to a formula whose guess is the exact value of the text,
read as ordinary arithmetic and reduced by the number of colours, and nothing that is held
on the way to it is too large for 64 bits. -/
theorem guess_eq_value {puzzle : Puzzle} (wf : puzzle.WellFormed)
    (hbase : 1 ≤ puzzle.base.toNat) {source : String}
    (haccepted : ∃ tokens, check puzzle source = .ok tokens) {hats : List Hat}
    (hlength : hats.length = puzzle.personCount) {person : Nat}
    (hperson : person < puzzle.personCount) (reading : puzzle.Reading hats person) :
    ∃ formula, Formula.compile puzzle source = .ok formula ∧
      (∃ phrase : Phrase .sum, phrase.Admitted puzzle ∧
        phrase.text = Text.compact source.toList) ∧
      (∀ phrase : Phrase .sum, phrase.Admitted puzzle →
        phrase.text = Text.compact source.toList →
        formula.guess hats person =
          ((phrase.value reading.value).tmod puzzle.base.toNat + puzzle.base.toNat).tmod
            puzzle.base.toNat) ∧
      (puzzle.Fits64 hats person →
        formula.tree.evaluate64 puzzle.base hats person = some (formula.guess hats person)) := by
  obtain ⟨tokens, htokens⟩ := haccepted
  obtain ⟨lexemes, haccepted, -⟩ := (check_eq_ok_iff ..).1 htokens
  obtain ⟨formula, hformula⟩ := exists_compile wf.unmarked haccepted
  obtain ⟨-, -, -, -, -, hpuzzle⟩ := (compile_eq_ok_iff ..).1 hformula
  obtain ⟨whole, hwhole, rfl⟩ := haccepted.exists_admitted wf
  have htext : whole.text = Text.compact source.toList := by
    rw [← whole.spell_lexemes, haccepted.splits.spell_eq]
  have hguess : formula.guess hats person =
      formula.tree.exact hats person % Puzzle.modulus puzzle.base := by
    rw [formula.guess_eq (by rwa [hpuzzle]) (by rwa [hpuzzle]), hpuzzle]
  refine ⟨formula, hformula, ⟨whole, hwhole, htext⟩, ?_, ?_⟩
  · intro phrase hadmitted hphrase
    have hbuilds := builds_of_compile wf hformula hadmitted hphrase
    rw [tmod_tmod_eq_emod _ (by omega), hguess, hbuilds.exact_emod reading, modulus_eq hbase]
  · intro hfits
    have hbuilds := builds_of_compile wf hformula hwhole htext
    rw [hbuilds.evaluate64_eq hfits (by omega), hguess]

/-- With the hats 0 to 9 in order, person 3 takes the hat of the left neighbour 25 times
from the own place: 3 - 4 × 25 leaves 3. -/
theorem guess_ten_eq_three :
    Puzzle.ten.WellFormed ∧ 1 ≤ Puzzle.ten.base.toNat ∧
      (∃ tokens, check .ten "i - l[1]×25" = .ok tokens) ∧
      [0, 1, 2, 3, 4, 5, 6, 7, 8, (9 : Hat)].length = Puzzle.ten.personCount ∧
      3 < Puzzle.ten.personCount ∧
      ∃ formula, Formula.compile .ten "i - l[1]×25" = .ok formula ∧
        formula.guess [0, 1, 2, 3, 4, 5, 6, 7, 8, 9] 3 = 3 ∧
        formula.tree.evaluate64 10 [0, 1, 2, 3, 4, 5, 6, 7, 8, 9] 3 = some 3 := by
  have hentry : (⟨"i", .ownIndex⟩ : NamedVariable) ∈ Puzzle.ten.vocabulary := by decide
  have hfamily : (⟨'l', 1⟩ : BracketFamily) ∈ Puzzle.ten.brackets := by decide
  have hrange : '1' ≤ '1' ∧ '1' ≤ '9' := by decide
  let phrase : Phrase .sum := .join (.product (.factor (.variable "i"))) .sub rfl
    (.times (.factor (.variable "l[1]")) (.number "25"))
  have hnumber : Puzzle.ten.IsNumber "25".toList := by decide
  have hadmitted : phrase.Admitted .ten :=
    ⟨.word hentry, .bracket hfamily hrange, hnumber⟩
  have htext : phrase.text = Text.compact "i - l[1]×25".toList := by decide
  have haccepted := phrase.check_eq_ok Puzzle.wellFormed_ten hadmitted (by decide) htext
  let hats : List Hat := [0, 1, 2, 3, 4, 5, 6, 7, 8, 9]
  obtain ⟨formula, hformula, -, hguess, hfits⟩ :=
    guess_eq_value Puzzle.wellFormed_ten (by decide) ⟨_, haccepted⟩
      (by decide : hats.length = Puzzle.ten.personCount)
      (by decide : 3 < Puzzle.ten.personCount) (Puzzle.ten.reading hats 3)
  have hthree : formula.guess hats 3 = 3 := (hguess phrase hadmitted htext).trans (by decide)
  refine ⟨Puzzle.wellFormed_ten, by decide, ⟨_, haccepted⟩, by decide, by decide, formula,
    hformula, hthree, ?_⟩
  rw [← hthree]
  exact hfits (Puzzle.fits64_ten (by decide) (by decide))

end HatCircle
