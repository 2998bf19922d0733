import HatCircle.Proofs.Evaluation
import HatCircle.Proofs.Exhaustive

/-!
# What a score says

The score of an assignment has one guess for each hat, and lists the people who are right, in the
order of the circle and each of them once (`correct_sublist`). A person is in the list exactly
when the guess is the colour of the own hat (`mem_correct_iff`), so the list is empty for the
counterexamples and for no other assignments (`correct_eq_nil_iff`).

None of this asks whether the hats fit the puzzle. If there are not as many of them as people,
nobody guesses, and the number that stands for no guess is no byte, so nobody is right. The short
way to the same verdict, which stops at the first person who is right, comes to the same end
(`early_exit_agrees`).
-/

namespace HatCircle.Formula

variable (formula : Formula) (assignment : Assignment)

theorem length_guesses : (formula.score assignment).guesses.length = assignment.hats.length := by
  simp only [score, List.length_map, List.length_range]

theorem getElem?_guesses_eq_some_iff (person : Nat) (guess : Int) :
    (formula.score assignment).guesses[person]? = some guess ↔
      person < assignment.hats.length ∧ formula.guess assignment.hats person = guess := by
  simp only [score]
  rw [List.getElem?_map, Option.map_eq_some_iff]
  constructor
  · rintro ⟨place, hplace, rfl⟩
    obtain ⟨hlt, rfl⟩ := List.getElem?_eq_some_iff.1 hplace
    rw [List.getElem_range]
    exact ⟨by simpa using hlt, rfl⟩
  · rintro ⟨hlt, rfl⟩
    exact ⟨person, List.getElem?_range hlt, rfl⟩

/-- The people who are right are those whose guess in the score is the colour of their hat. -/
theorem mem_correct_iff_guesses (person : Nat) :
    person ∈ (formula.score assignment).correct ↔ ∃ hat, assignment.hats[person]? = some hat ∧
      (formula.score assignment).guesses[person]? = some (hat.toNat : Int) := by
  simp only [score, List.mem_map, List.mem_filter, beq_iff_eq]
  constructor
  · rintro ⟨⟨⟨guess, hat⟩, place⟩, ⟨hmem, hright⟩, rfl⟩
    rw [List.mk_mem_zipIdx_iff_getElem?, List.getElem?_zip_eq_some] at hmem
    exact ⟨hat, hmem.2, hmem.1.trans (congrArg some hright)⟩
  · rintro ⟨hat, hhat, hguess⟩
    refine ⟨⟨⟨hat.toNat, hat⟩, person⟩, ⟨?_, rfl⟩, rfl⟩
    rw [List.mk_mem_zipIdx_iff_getElem?, List.getElem?_zip_eq_some]
    exact ⟨hguess, hhat⟩

theorem mem_correct_iff (person : Nat) :
    person ∈ (formula.score assignment).correct ↔ ∃ hat, assignment.hats[person]? = some hat ∧
      formula.guess assignment.hats person = hat.toNat := by
  rw [mem_correct_iff_guesses]
  refine exists_congr fun hat => and_congr_right fun hhat => ?_
  obtain ⟨hlt, -⟩ := List.getElem?_eq_some_iff.1 hhat
  rw [getElem?_guesses_eq_some_iff]
  exact and_iff_right hlt

theorem correct_sublist :
    (formula.score assignment).correct.Sublist (List.range assignment.hats.length) := by
  have hplaces : ∀ entries : List (Int × Hat),
      entries.zipIdx.map Prod.snd = List.range entries.length := by
    intro entries
    rw [List.zipIdx_map_snd, List.range_eq_range']
  have hfilter := (List.filter_sublist (p := fun entry : (Int × Hat) × Nat =>
    entry.1.1 == entry.1.2.toNat) (l := (((List.range assignment.hats.length).map fun person =>
      formula.guess assignment.hats person).zip assignment.hats).zipIdx)).map Prod.snd
  rw [hplaces, List.length_zip, List.length_map, List.length_range, Nat.min_self] at hfilter
  exact hfilter

theorem nodup_correct : (formula.score assignment).correct.Nodup :=
  (formula.correct_sublist assignment).nodup List.nodup_range

theorem correct_eq_nil_iff :
    (formula.score assignment).correct = [] ↔ formula.IsCounterexample assignment.hats := by
  rw [List.eq_nil_iff_forall_not_mem]
  simp only [mem_correct_iff, IsCounterexample, not_exists, not_and]

theorem isCounterexample_score_iff :
    (formula.score assignment).isCounterexample = true ↔
      formula.IsCounterexample assignment.hats := by
  rw [Score.isCounterexample, List.isEmpty_iff, correct_eq_nil_iff]

theorem one_le_length_correct {hats : List Hat} (h : ¬ formula.IsCounterexample hats) :
    1 ≤ (formula.score ⟨hats⟩).correct.length := by
  rw [Nat.one_le_iff_ne_zero, Ne, List.length_eq_zero_iff, correct_eq_nil_iff]
  exact h

/-! ### Hats that do not fit -/

variable {formula assignment}

theorem guess_of_length_ne {hats : List Hat} (h : hats.length ≠ formula.puzzle.personCount)
    (person : Nat) : formula.guess hats person = noGuess :=
  formula.guess_eq_noGuess fun hfits => h hfits.1

/-- No hat has the number that stands for no guess, whatever its byte. -/
theorem isCounterexample_of_length_ne {hats : List Hat}
    (h : hats.length ≠ formula.puzzle.personCount) : formula.IsCounterexample hats := by
  intro person hat _ hguess
  rw [guess_of_length_ne h] at hguess
  have hbyte : (0 : Int) ≤ hat.toNat := Int.natCast_nonneg _
  rw [← hguess] at hbyte
  exact absurd hbyte (by decide)

theorem guesses_of_length_ne (h : assignment.hats.length ≠ formula.puzzle.personCount) :
    (formula.score assignment).guesses = List.replicate assignment.hats.length noGuess := by
  simp only [score, guess_of_length_ne h, List.map_const', List.length_range]

/-! ### The short way -/

/-- Somebody is found to be right exactly when the score is no counterexample, under any list of
bytes. The score has everybody's guess, one for each hat, and its list of the people who are right
goes up and holds just those whose guess is the colour of their hat. If there is not a hat for
each person, all guesses are the number that stands for none, nobody is right, and the assignment
is a counterexample. With neighbours within reach of 64 bits, none of the guesses that only the
score asks for, and none of those that both ask for, wraps around on the way. -/
theorem early_exit_agrees (formula : Formula) (assignment : Assignment) :
    (formula.hasCorrectGuesser assignment.hats = true ↔
        (formula.score assignment).isCounterexample = false) ∧
      (formula.score assignment).guesses.length = assignment.hats.length ∧
      (∀ person < assignment.hats.length, (formula.score assignment).guesses[person]? =
        some (formula.guess assignment.hats person)) ∧
      (formula.score assignment).correct.Pairwise (· < ·) ∧
      (∀ person, person ∈ (formula.score assignment).correct ↔
        ∃ hat, assignment.hats[person]? = some hat ∧
          (formula.score assignment).guesses[person]? = some (hat.toNat : Int)) ∧
      (assignment.hats.length ≠ formula.puzzle.personCount →
        (formula.score assignment).guesses = List.replicate assignment.hats.length (-1) ∧
          (formula.score assignment).correct = [] ∧
          (formula.score assignment).isCounterexample = true) ∧
      (formula.InReach → formula.Exact64) := by
  refine ⟨?_, formula.length_guesses assignment, ?_, ?_, formula.mem_correct_iff_guesses assignment,
    ?_, fun hreach => hreach.exact64⟩
  · rw [hasCorrectGuesser_eq_true_iff, ← isCounterexample_score_iff, Bool.not_eq_true]
  · intro person hperson
    exact (formula.getElem?_guesses_eq_some_iff assignment person _).2 ⟨hperson, rfl⟩
  · exact (List.pairwise_lt_range).sublist (formula.correct_sublist assignment)
  · intro hlength
    have hnobody := isCounterexample_of_length_ne hlength
    exact ⟨guesses_of_length_ne hlength, (formula.correct_eq_nil_iff assignment).2 hnobody,
      (formula.isCounterexample_score_iff assignment).2 hnobody⟩

/-- Under three hats of the greatest byte the circle of two has no guesses and nobody who is right,
and the short way says the same. -/
theorem early_exit_agrees_two :
    ∃ formula, Formula.compile .two "other" = .ok formula ∧
      [(255 : Hat), 255, 255].length ≠ formula.puzzle.personCount ∧
      (formula.score ⟨[255, 255, 255]⟩).guesses = [-1, -1, -1] ∧
      (formula.score ⟨[255, 255, 255]⟩).correct = [] ∧
      formula.hasCorrectGuesser [255, 255, 255] = false ∧ formula.InReach ∧ formula.Exact64 := by
  have hcompile : Formula.compile .two "other" = .ok
      ⟨"other", [.variable "other"], .var "other" (.neighbor 1), .two⟩ := by decide +kernel
  refine ⟨_, hcompile, by decide, ?_⟩
  obtain ⟨hsame, -, -, -, -, hlength, hexact⟩ := early_exit_agrees
    ⟨"other", [.variable "other"], .var "other" (.neighbor 1), .two⟩ ⟨[255, 255, 255]⟩
  obtain ⟨hguesses, hcorrect, hcounterexample⟩ := hlength (by decide)
  refine ⟨hguesses, hcorrect, ?_, by decide, hexact (by decide)⟩
  rw [← Bool.not_eq_true, hsame, hcounterexample]
  exact Bool.noConfusion

end HatCircle.Formula
