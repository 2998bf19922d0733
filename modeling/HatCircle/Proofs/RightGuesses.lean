import Mathlib.Combinatorics.Enumerative.DoubleCounting
import HatCircle.Proofs.OwnHat
import HatCircle.Proofs.Scoring

/-!
# How often a guess is right

When no variable leads to the own hat, a person is told the same colour whatever the own hat
is. Of the assignments that agree on the hats of the others, one for each colour, exactly
one has that colour (`ncard_told`). So every formula makes every person right equally often,
namely under as many assignments as one person less can wear (`ncard_right`).

Counting the right guesses of all people under all assignments in the two possible orders
compares this with the number of assignments (`sum_correct`). With as many people as colours
there is one right guess for each assignment on average, so a formula without a
counterexample has exactly one everywhere (`no_counterexample_iff_one_right`); with fewer
people there are too few to go round (`exists_counterexample_of_lt`).
-/

namespace HatCircle

open Assignment

/-! ### Assignments with one hat less -/

/-- The puzzle for one person less. -/
def Puzzle.oneFewer (puzzle : Puzzle) : Puzzle :=
  { puzzle with personCount := puzzle.personCount - 1 }

section OneFewer

variable {puzzle : Puzzle} {person : Nat} {hats rest : List Hat}

theorem fits_insertIdx (hperson : person < puzzle.personCount) (h : Fits puzzle.oneFewer rest)
    {hat : Hat} (hhat : hat < puzzle.base) : Fits puzzle (rest.insertIdx person hat) := by
  have hlength : rest.length = puzzle.personCount - 1 := h.1
  have hle : person ≤ rest.length := by omega
  constructor
  · rw [List.length_insertIdx_of_le_length hle]
    omega
  · intro other hother
    rcases (List.mem_insertIdx hle).1 hother with rfl | hother
    · exact hhat
    · exact h.2 other hother

theorem fits_eraseIdx (hperson : person < puzzle.personCount) (h : Fits puzzle hats) :
    Fits puzzle.oneFewer (hats.eraseIdx person) := by
  have hlt : person < hats.length := h.1.symm ▸ hperson
  constructor
  · rw [List.length_eraseIdx_of_lt hlt, h.1]
    rfl
  · intro hat hhat
    exact h.2 hat (List.mem_of_mem_eraseIdx hhat)

/-- Two hats put in at the same place make assignments that agree everywhere else. -/
theorem getElem?_insertIdx_of_ne (rest : List Hat) (hat other : Hat) {place : Nat}
    (h : place ≠ person) :
    (rest.insertIdx person hat)[place]? = (rest.insertIdx person other)[place]? := by
  simp only [List.getElem?_insertIdx, if_neg h]

/-- A colour that is told to a person and does not depend on the own hat is that of the own
hat under as many assignments as one person less can wear: each of these leaves one
assignment for the told colour. -/
theorem ncard_told (hbase : 1 ≤ puzzle.base.toNat) (hperson : person < puzzle.personCount)
    {told : List Hat → Hat} (hcolour : ∀ hats, told hats < puzzle.base)
    (hblind : ∀ hats others, Fits puzzle hats → Fits puzzle others →
      (∀ place, place ≠ person → hats[place]? = others[place]?) → told hats = told others) :
    {hats | Fits puzzle hats ∧ hats[person]? = some (told hats)}.ncard =
      puzzle.base.toNat ^ (puzzle.personCount - 1) := by
  have hzero : 0 < puzzle.base := UInt8.lt_iff_toNat_lt.2 (Nat.lt_of_succ_le hbase)
  -- what is told does not depend on the own hat, so any hat will do to ask for it
  let complete : List Hat → List Hat := fun rest =>
    rest.insertIdx person (told (rest.insertIdx person 0))
  have hfits : ∀ rest, Fits puzzle.oneFewer rest → Fits puzzle (complete rest) := by
    intro rest hrest
    exact fits_insertIdx hperson hrest (hcolour _)
  have himage : {hats | Fits puzzle hats ∧ hats[person]? = some (told hats)} =
      complete '' {rest | Fits puzzle.oneFewer rest} := by
    ext hats
    constructor
    · rintro ⟨hhats, hown⟩
      have hlt : person < hats.length := hhats.1.symm ▸ hperson
      have hrest := fits_eraseIdx hperson hhats
      refine ⟨hats.eraseIdx person, hrest, ?_⟩
      have hsame : told ((hats.eraseIdx person).insertIdx person 0) = told hats := by
        apply hblind _ _ (fits_insertIdx hperson hrest hzero) hhats
        intro place hplace
        rw [List.insertIdx_eraseIdx_self hlt.ne, List.getElem?_set_ne hplace.symm]
      obtain ⟨_, hhat⟩ := List.getElem?_eq_some_iff.1 hown
      simp only [complete, hsame, ← hhat]
      rw [List.insertIdx_eraseIdx_self hlt.ne, List.set_getElem_self]
    · rintro ⟨rest, hrest, rfl⟩
      have hlength : rest.length = puzzle.personCount - 1 := hrest.1
      have hsame : told (complete rest) = told (rest.insertIdx person 0) := by
        apply hblind _ _ (hfits rest hrest) (fits_insertIdx hperson hrest hzero)
        intro place hplace
        exact getElem?_insertIdx_of_ne rest _ _ hplace
      refine ⟨hfits rest hrest, ?_⟩
      rw [hsame, List.getElem?_insertIdx_self, if_pos (by omega)]
  have hinj : Set.InjOn complete {rest | Fits puzzle.oneFewer rest} := by
    intro rest _ other _ heq
    have herase := congrArg (fun hats => hats.eraseIdx person) heq
    simpa only [complete, List.eraseIdx_insertIdx_self] using herase
  rw [himage, hinj.ncard_image]
  exact ncard_fits hbase

end OneFewer

/-! ### Right guesses -/

section Right

variable {puzzle : Puzzle} {source : String} {formula : Formula}

/-- The guess of a person of the circle, as a colour. -/
def Formula.told (formula : Formula) (person : Nat) (hats : List Hat) : Hat :=
  normalize formula.puzzle.base (formula.tree.exact hats person)

theorem Formula.guess_eq_told (formula : Formula) {hats : List Hat} {person : Nat}
    (hlength : hats.length = formula.puzzle.personCount)
    (hperson : person < formula.puzzle.personCount) :
    formula.guess hats person = (formula.told person hats).toNat := by
  rw [formula.guess_eq hlength hperson, told, toNat_normalize]

theorem Formula.told_lt (formula : Formula) (hbase : 1 ≤ formula.puzzle.base.toNat)
    (person : Nat) (hats : List Hat) : formula.told person hats < formula.puzzle.base :=
  normalize_lt hbase _

theorem Formula.mem_correct_iff_told (formula : Formula) {hats : List Hat} {person : Nat}
    (hlength : hats.length = formula.puzzle.personCount)
    (hperson : person < formula.puzzle.personCount) :
    person ∈ (formula.score ⟨hats⟩).correct ↔ hats[person]? = some (formula.told person hats) := by
  rw [mem_correct_iff, formula.guess_eq_told hlength hperson]
  constructor
  · rintro ⟨hat, hhat, hright⟩
    rw [hhat, UInt8.toNat_inj.1 (Int.ofNat.inj hright)]
  · intro hhat
    exact ⟨_, hhat, rfl⟩

theorem one_le_of_no_counterexample (hbase : 1 ≤ puzzle.base.toNat)
    (hnone : ¬ ∃ hats, Fits puzzle hats ∧ formula.IsCounterexample hats) :
    ∀ hats ∈ (finite_fits hbase).toFinset, 1 ≤ (formula.score ⟨hats⟩).correct.length := by
  intro hats hhats
  apply formula.one_le_length_correct
  intro hcounter
  exact hnone ⟨hats, (finite_fits hbase).mem_toFinset.1 hhats, hcounter⟩

variable (hbase : 1 ≤ puzzle.base.toNat) (hblind : puzzle.Blind)
  (h : Formula.compile puzzle source = .ok formula)
include hbase hblind h

theorem ncard_right {person : Nat} (hperson : person < puzzle.personCount) :
    {hats | Fits puzzle hats ∧ person ∈ (formula.score ⟨hats⟩).correct}.ncard =
      puzzle.base.toNat ^ (puzzle.personCount - 1) := by
  obtain ⟨phrase, -, hbuilds, -, rfl⟩ := exists_builds_of_compile h
  have hright : {hats | Fits formula.puzzle hats ∧ person ∈ (formula.score ⟨hats⟩).correct} =
      {hats | Fits formula.puzzle hats ∧ hats[person]? = some (formula.told person hats)} := by
    ext hats
    constructor
    · rintro ⟨hhats, hmem⟩
      exact ⟨hhats, (formula.mem_correct_iff_told hhats.1 hperson).1 hmem⟩
    · rintro ⟨hhats, hown⟩
      exact ⟨hhats, (formula.mem_correct_iff_told hhats.1 hperson).2 hown⟩
  rw [hright]
  apply ncard_told hbase hperson (formula.told_lt hbase person)
  intro hats others hhats hothers hagree
  rw [Formula.told, Formula.told,
    hblind.exact_eq hbuilds hperson hhats.1 hothers.1 hagree]

/-- The right guesses under all assignments, counted person by person. -/
theorem sum_correct :
    ∑ hats ∈ (finite_fits hbase).toFinset, (formula.score ⟨hats⟩).correct.length =
      puzzle.personCount * puzzle.base.toNat ^ (puzzle.personCount - 1) := by
  have hassignment : ∀ hats ∈ (finite_fits hbase).toFinset,
      (formula.score ⟨hats⟩).correct.length =
        ((Finset.range puzzle.personCount).bipartiteAbove
          (fun hats person => person ∈ (formula.score ⟨hats⟩).correct) hats).card := by
    intro hats hhats
    have hlength : hats.length = puzzle.personCount := ((finite_fits hbase).mem_toFinset.1 hhats).1
    rw [← List.toFinset_card_of_nodup (formula.nodup_correct ⟨hats⟩)]
    congr 1
    ext person
    simp only [List.mem_toFinset, Finset.mem_bipartiteAbove, Finset.mem_range]
    constructor
    · intro hmem
      have hrange := (formula.correct_sublist ⟨hats⟩).subset hmem
      exact ⟨hlength ▸ List.mem_range.1 hrange, hmem⟩
    · exact fun hmem => hmem.2
  have hperson : ∀ person ∈ Finset.range puzzle.personCount,
      ((finite_fits hbase).toFinset.bipartiteBelow
        (fun hats person => person ∈ (formula.score ⟨hats⟩).correct) person).card =
        puzzle.base.toNat ^ (puzzle.personCount - 1) := by
    intro person hperson
    rw [← ncard_right hbase hblind h (Finset.mem_range.1 hperson), ← Set.ncard_coe_finset]
    congr 1
    ext hats
    simp
  calc ∑ hats ∈ (finite_fits hbase).toFinset, (formula.score ⟨hats⟩).correct.length
      = ∑ hats ∈ (finite_fits hbase).toFinset, ((Finset.range puzzle.personCount).bipartiteAbove
          (fun hats person => person ∈ (formula.score ⟨hats⟩).correct) hats).card :=
        Finset.sum_congr rfl hassignment
    _ = ∑ person ∈ Finset.range puzzle.personCount,
          ((finite_fits hbase).toFinset.bipartiteBelow
            (fun hats person => person ∈ (formula.score ⟨hats⟩).correct) person).card :=
        Finset.sum_card_bipartiteAbove_eq_sum_card_bipartiteBelow _
    _ = ∑ _ ∈ Finset.range puzzle.personCount,
          puzzle.base.toNat ^ (puzzle.personCount - 1) := Finset.sum_congr rfl hperson
    _ = puzzle.personCount * puzzle.base.toNat ^ (puzzle.personCount - 1) := by
        rw [Finset.sum_const, Finset.card_range, Nat.nsmul_eq_mul]

/-- A right guess somewhere under every assignment needs as many right guesses as there are
assignments. -/
theorem pow_le_of_no_counterexample
    (hnone : ¬ ∃ hats, Fits puzzle hats ∧ formula.IsCounterexample hats) :
    puzzle.base.toNat ^ puzzle.personCount ≤
      puzzle.personCount * puzzle.base.toNat ^ (puzzle.personCount - 1) := by
  rw [← sum_correct hbase hblind h, ← card_fits hbase, Finset.card_eq_sum_ones]
  exact Finset.sum_le_sum (one_le_of_no_counterexample hbase hnone)

theorem exists_counterexample_of_lt (hlt : puzzle.personCount < puzzle.base.toNat) :
    ∃ hats, Fits puzzle hats ∧ formula.IsCounterexample hats := by
  by_contra hnone
  have hle := pow_le_of_no_counterexample hbase hblind h hnone
  by_cases hcount : puzzle.personCount = 0
  · rw [hcount, Nat.pow_zero, Nat.zero_mul] at hle
    omega
  · rw [← mul_pow_sub_one hcount] at hle
    exact Nat.not_le_of_lt hlt (Nat.le_of_mul_le_mul_right hle (Nat.pow_pos hbase))

/-- With as many people as colours no right guess can be spared: where nobody is always
wrong, nobody is right together with somebody else. -/
theorem no_counterexample_iff_one_right (heq : puzzle.personCount = puzzle.base.toNat) :
    (¬ ∃ hats, Fits puzzle hats ∧ formula.IsCounterexample hats) ↔
      ∀ hats, Fits puzzle hats → ∃ person, (formula.score ⟨hats⟩).correct = [person] := by
  constructor
  · intro hnone
    have hsum : ∑ _ ∈ (finite_fits hbase).toFinset, 1 =
        ∑ hats ∈ (finite_fits hbase).toFinset, (formula.score ⟨hats⟩).correct.length := by
      rw [sum_correct hbase hblind h, ← Finset.card_eq_sum_ones, card_fits hbase, heq,
        mul_pow_sub_one (by omega)]
    intro hats hhats
    have hlength := (Finset.sum_eq_sum_iff_of_le (one_le_of_no_counterexample hbase hnone)).1
      hsum hats ((finite_fits hbase).mem_toFinset.2 hhats)
    exact List.length_eq_one_iff.1 hlength.symm
  · rintro hright ⟨hats, hhats, hcounter⟩
    obtain ⟨person, hperson⟩ := hright hats hhats
    rw [← formula.correct_eq_nil_iff ⟨hats⟩, hperson] at hcounter
    cases hcounter

end Right

/-! ### Every formula is right equally often -/

/-- In a puzzle whose variables do not lead to the own hat, every formula makes each person
right under one assignment out of as many as there are colours. So with as many people as
colours it has no counterexample exactly if one person alone is right under every
assignment, and with fewer people than colours it has a counterexample. -/
theorem right_equally_often {puzzle : Puzzle} (hbase : 1 ≤ puzzle.base.toNat)
    (hblind : puzzle.Blind) {source : String} {formula : Formula}
    (h : Formula.compile puzzle source = .ok formula) :
    {hats | Fits puzzle hats}.ncard = puzzle.base.toNat ^ puzzle.personCount ∧
      (∀ person, person < puzzle.personCount →
        {hats | Fits puzzle hats ∧ person ∈ (formula.score ⟨hats⟩).correct}.ncard =
          puzzle.base.toNat ^ (puzzle.personCount - 1)) ∧
      (puzzle.personCount = puzzle.base.toNat →
        ((¬ ∃ hats, Fits puzzle hats ∧ formula.IsCounterexample hats) ↔
          ∀ hats, Fits puzzle hats → ∃ person, (formula.score ⟨hats⟩).correct = [person])) ∧
      (puzzle.personCount < puzzle.base.toNat →
        ∃ hats, Fits puzzle hats ∧ formula.IsCounterexample hats) :=
  ⟨ncard_fits hbase, fun _ hperson => ncard_right hbase hblind h hperson,
    no_counterexample_iff_one_right hbase hblind h, exists_counterexample_of_lt hbase hblind h⟩

/-- In the puzzle for two, one person says the other hat and one says the opposite: the
second is right under two of the four assignments. -/
theorem right_other_add_index :
    1 ≤ Puzzle.two.base.toNat ∧ Puzzle.two.Blind ∧
      ∃ formula, Formula.compile .two "other + i" = .ok formula ∧
        {hats | Fits Puzzle.two hats ∧ 1 ∈ (formula.score ⟨hats⟩).correct}.ncard = 2 ∧
        ((¬ ∃ hats, Fits Puzzle.two hats ∧ formula.IsCounterexample hats) ↔
          ∀ hats, Fits Puzzle.two hats → ∃ person, (formula.score ⟨hats⟩).correct = [person]) := by
  have hcompile : Formula.compile .two "other + i" = .ok
      { source := "other + i"
        tokens := [.variable "other", .operator .add, .variable "i"]
        tree := .binary .add (.var "other" (.neighbor 1)) (.var "i" .ownIndex)
        puzzle := .two } := by decide +kernel
  have hcount := right_equally_often (by decide) Puzzle.blind_two hcompile
  refine ⟨by decide, Puzzle.blind_two, _, hcompile, ?_, hcount.2.2.1 rfl⟩
  exact hcount.2.1 1 (by decide)

end HatCircle
