import HatCircle.Proofs.Numbering
import HatCircle.Proofs.TreeValue
import HatCircle.Search.Exhaustive

/-!
# Exhaustive search decides

An assignment is a counterexample to a formula when nobody guesses the colour of their own
hat. The search tries the assignments by index; what it reports depends only on the first
index at which it meets a counterexample (`exhaustiveFrom_of_first`) or on there being none
(`exhaustiveFrom_of_clean`). Since the indices run through the assignments in lexicographic
order, a search over all of them finds the first counterexample or proves that there is
none (`exhaustive_decides`).
-/

namespace HatCircle

namespace Formula

/-- Nobody guesses the colour of their own hat. -/
def IsCounterexample (formula : Formula) (hats : List Hat) : Prop :=
  ∀ person hat, hats[person]? = some hat → formula.guess hats person ≠ hat.toNat

theorem anyRightFrom_eq_false_iff (formula : Formula) (hats : List Hat) (start : Nat)
    (rest : List Hat) :
    formula.anyRightFrom hats start rest = false ↔
      ∀ place hat, rest[place]? = some hat → formula.guess hats (start + place) ≠ hat.toNat := by
  induction rest generalizing start with
  | nil => simp [anyRightFrom]
  | cons first rest ih =>
      rw [anyRightFrom, Bool.or_eq_false_iff, ih]
      constructor
      · rintro ⟨hfirst, hrest⟩ place hat hplace
        cases place with
        | zero =>
            obtain rfl : first = hat := by simpa using hplace
            simpa [isRight] using hfirst
        | succ place =>
            have := hrest place hat (by simpa using hplace)
            rwa [Nat.add_assoc, Nat.add_comm 1] at this
      · intro h
        constructor
        · simpa [isRight] using h 0 first (by simp)
        · intro place hat hplace
          have := h (place + 1) hat (by simpa using hplace)
          rwa [Nat.add_comm place, ← Nat.add_assoc] at this

theorem hasCorrectGuesser_eq_false_iff (formula : Formula) (hats : List Hat) :
    formula.hasCorrectGuesser hats = false ↔ formula.IsCounterexample hats := by
  rw [hasCorrectGuesser, anyRightFrom_eq_false_iff]
  simp only [Nat.zero_add, IsCounterexample]

theorem hasCorrectGuesser_eq_true_iff (formula : Formula) (hats : List Hat) :
    formula.hasCorrectGuesser hats = true ↔ ¬ formula.IsCounterexample hats := by
  rw [← hasCorrectGuesser_eq_false_iff, Bool.not_eq_false]

/-! ### The loop -/

section Loop

variable {formula : Formula}

theorem exhaustiveFrom_succ_of_right {remaining index : Nat} {last : Assignment}
    (h : ¬ formula.IsCounterexample (Assignment.ofIndex formula.puzzle index).hats) :
    formula.exhaustiveFrom (remaining + 1) index last =
      formula.exhaustiveFrom remaining (index + 1) (Assignment.ofIndex formula.puzzle index) := by
  rw [exhaustiveFrom]
  simp only [(hasCorrectGuesser_eq_true_iff ..).2 h, if_true]

theorem exhaustiveFrom_succ_of_counterexample {remaining index : Nat} {last : Assignment}
    (h : formula.IsCounterexample (Assignment.ofIndex formula.puzzle index).hats) :
    formula.exhaustiveFrom (remaining + 1) index last =
      ⟨.counterexample (Assignment.ofIndex formula.puzzle index), .exhaustive, index + 1,
        false⟩ := by
  rw [exhaustiveFrom]
  simp only [(hasCorrectGuesser_eq_false_iff ..).2 h, Bool.false_eq_true, if_false]

/-- Without a counterexample the loop ends with the last assignment in hand. -/
theorem exhaustiveFrom_of_clean {remaining index : Nat} (last : Assignment)
    (h : ∀ i, index ≤ i → i < index + remaining →
      ¬ formula.IsCounterexample (Assignment.ofIndex formula.puzzle i).hats) :
    formula.exhaustiveFrom remaining index last =
      ⟨.noCounterexampleFound (if remaining = 0 then last
          else Assignment.ofIndex formula.puzzle (index + remaining - 1)),
        .exhaustive, index + remaining, true⟩ := by
  induction remaining generalizing index last with
  | zero => rfl
  | succ remaining ih =>
      rw [exhaustiveFrom_succ_of_right (h index (by omega) (by omega)),
        ih _ fun i hlow hhigh => h i (by omega) (by omega)]
      have hlast : (if remaining = 0 then Assignment.ofIndex formula.puzzle index
          else Assignment.ofIndex formula.puzzle (index + 1 + remaining - 1)) =
          Assignment.ofIndex formula.puzzle (index + (remaining + 1) - 1) := by
        split
        · subst remaining
          rfl
        · congr 1
          omega
      rw [hlast, if_neg (by omega), Nat.add_assoc, Nat.add_comm 1]

theorem exhaustiveFrom_of_first {remaining index first : Nat} (last : Assignment)
    (hlow : index ≤ first) (hhigh : first < index + remaining)
    (hfirst : formula.IsCounterexample (Assignment.ofIndex formula.puzzle first).hats)
    (h : ∀ i, index ≤ i → i < first →
      ¬ formula.IsCounterexample (Assignment.ofIndex formula.puzzle i).hats) :
    formula.exhaustiveFrom remaining index last =
      ⟨.counterexample (Assignment.ofIndex formula.puzzle first), .exhaustive, first + 1,
        false⟩ := by
  induction remaining generalizing index last with
  | zero => omega
  | succ remaining ih =>
      by_cases heq : index = first
      · subst heq
        exact exhaustiveFrom_succ_of_counterexample hfirst
      · rw [exhaustiveFrom_succ_of_right (h index (by omega) (by omega))]
        exact ih _ (by omega) (by omega) fun i hi hi' => h i (by omega) hi'

/-- The two ends of the loop, by the first counterexample that it meets. -/
theorem exhaustiveFrom_cases (formula : Formula) (remaining : Nat) (last : Assignment) :
    (∃ first < remaining,
      formula.IsCounterexample (Assignment.ofIndex formula.puzzle first).hats ∧
      (∀ i < first, ¬ formula.IsCounterexample (Assignment.ofIndex formula.puzzle i).hats) ∧
      formula.exhaustiveFrom remaining 0 last =
        ⟨.counterexample (Assignment.ofIndex formula.puzzle first), .exhaustive, first + 1,
          false⟩) ∨
    ((∀ i < remaining, ¬ formula.IsCounterexample (Assignment.ofIndex formula.puzzle i).hats) ∧
      formula.exhaustiveFrom remaining 0 last =
        ⟨.noCounterexampleFound (if remaining = 0 then last
          else Assignment.ofIndex formula.puzzle (remaining - 1)), .exhaustive, remaining,
          true⟩) := by
  classical
  by_cases hclean : ∀ i < remaining,
      ¬ formula.IsCounterexample (Assignment.ofIndex formula.puzzle i).hats
  · refine .inr ⟨hclean, ?_⟩
    rw [exhaustiveFrom_of_clean last fun i _ hi => hclean i (by omega), Nat.zero_add]
  · push Not at hclean
    obtain ⟨hlt, hfirst⟩ := Nat.find_spec hclean
    have hbefore : ∀ i < Nat.find hclean,
        ¬ formula.IsCounterexample (Assignment.ofIndex formula.puzzle i).hats :=
      fun i hi hi' => Nat.find_min hclean hi ⟨by omega, hi'⟩
    exact .inl ⟨Nat.find hclean, hlt, hfirst, hbefore, exhaustiveFrom_of_first last
      (Nat.zero_le _) (by omega) hfirst fun i _ hi => hbefore i hi⟩

end Loop

/-! ### A search over all assignments -/

section Search

open Assignment

variable {formula : Formula}

/-- The number of indices that a search goes through: that of all assignments, as far as
they can be counted. -/
def searched (formula : Formula) : Nat :=
  formula.puzzle.assignmentSpace.getD (UInt64.size - 1)

theorem assignmentSpace_eq_some {puzzle : Puzzle} {space : Nat}
    (h : puzzle.assignmentSpace = some space) :
    space = puzzle.base.toNat ^ puzzle.personCount := by
  unfold Puzzle.assignmentSpace at h
  split at h
  · simp only at h
    split at h
    · exact (Option.some.inj h).symm
    · cases h
  · cases h

theorem exhaustive_cases (formula : Formula) :
    (∃ first < formula.searched,
      formula.IsCounterexample (ofIndex formula.puzzle first).hats ∧
      (∀ i < first, ¬ formula.IsCounterexample (ofIndex formula.puzzle i).hats) ∧
      formula.exhaustive =
        ⟨.counterexample (ofIndex formula.puzzle first), .exhaustive, first + 1, false⟩) ∨
    ((∀ i < formula.searched, ¬ formula.IsCounterexample (ofIndex formula.puzzle i).hats) ∧
      formula.exhaustive =
        ⟨.noCounterexampleFound (if formula.searched = 0 then ofIndex formula.puzzle 0
          else ofIndex formula.puzzle (formula.searched - 1)), .exhaustive, formula.searched,
          true⟩) :=
  formula.exhaustiveFrom_cases formula.searched _

/-- A search that can count the assignments finds the first counterexample, after a trial
of each assignment before it. -/
theorem exhaustive_of_counterexample (hbase : 1 ≤ formula.puzzle.base.toNat)
    {a : Assignment} (h : formula.exhaustive.outcome = .counterexample a)
    (hspace : formula.searched = formula.puzzle.base.toNat ^ formula.puzzle.personCount) :
    Fits formula.puzzle a.hats ∧ formula.IsCounterexample a.hats ∧
      (∀ hats, Fits formula.puzzle hats → hats < a.hats → ¬ formula.IsCounterexample hats) ∧
      formula.exhaustive.trials = 1 + {hats | Fits formula.puzzle hats ∧ hats < a.hats}.ncard ∧
      formula.exhaustive.proven = false := by
  rcases formula.exhaustive_cases with ⟨first, hlt, hfirst, hbefore, hreport⟩ | ⟨-, hreport⟩
  · rw [hreport] at h
    obtain rfl := Outcome.counterexample.inj h
    have hfits := fits_ofIndex hbase first
    have hnumber := number_ofIndex hbase first
    rw [Nat.mod_eq_of_lt (by omega)] at hnumber
    refine ⟨hfits, hfirst, ?_, ?_, by rw [hreport]⟩
    · intro hats hhats hless
      refine (forall_ofIndex_iff hbase (¬ formula.IsCounterexample ·) first).1 hbefore hats hhats ?_
      rw [← hnumber]
      exact (number_lt_number_iff (hhats.1.trans hfits.1.symm) hhats.toNat_lt
        hfits.toNat_lt).2 hless
    · rw [hreport, ncard_before hbase hfits, hnumber, Nat.add_comm]
  · rw [hreport] at h
    cases h

/-- A search that can count the assignments and meets no counterexample tries all of them,
the last one being that in which every hat has the greatest colour. -/
theorem exhaustive_of_none (hbase : 1 ≤ formula.puzzle.base.toNat)
    (hspace : formula.searched = formula.puzzle.base.toNat ^ formula.puzzle.personCount)
    (h : ¬ ∃ hats, Fits formula.puzzle hats ∧ formula.IsCounterexample hats) :
    formula.exhaustive =
      ⟨.noCounterexampleFound
          ⟨List.replicate formula.puzzle.personCount (formula.puzzle.base - 1)⟩,
        .exhaustive, formula.puzzle.base.toNat ^ formula.puzzle.personCount, true⟩ := by
  have hpos : 0 < formula.puzzle.base.toNat ^ formula.puzzle.personCount := Nat.pow_pos hbase
  rcases formula.exhaustive_cases with ⟨first, -, hfirst, -, -⟩ | ⟨-, hreport⟩
  · exact absurd ⟨_, fits_ofIndex hbase first, hfirst⟩ h
  · rw [hreport, if_neg (by omega), hspace, ofIndex_last hbase]

/-- If the assignments can be counted, exhaustive search decides whether there is a
counterexample. It finds the first one in lexicographic order, after a trial of each
assignment before it; or it tries all assignments up to the last one, in which every hat
has the greatest colour, and calls the outcome proven. With neighbours within reach of 64 bits,
no guess of the search wraps around on the way. -/
theorem exhaustive_decides (formula : Formula) (hbase : 1 ≤ formula.puzzle.base.toNat)
    {space : Nat} (hspace : formula.puzzle.assignmentSpace = some space) :
    ((∃ a, formula.exhaustive.outcome = .counterexample a) ↔
      ∃ hats, Fits formula.puzzle hats ∧ formula.IsCounterexample hats) ∧
    (∀ a, formula.exhaustive.outcome = .counterexample a →
      Fits formula.puzzle a.hats ∧ formula.IsCounterexample a.hats ∧
      (∀ hats, Fits formula.puzzle hats → hats < a.hats → ¬ formula.IsCounterexample hats) ∧
      formula.exhaustive.trials =
        1 + {hats | Fits formula.puzzle hats ∧ hats < a.hats}.ncard ∧
      formula.exhaustive.proven = false) ∧
    ((¬ ∃ hats, Fits formula.puzzle hats ∧ formula.IsCounterexample hats) →
      formula.exhaustive.outcome = .noCounterexampleFound
        ⟨List.replicate formula.puzzle.personCount (formula.puzzle.base - 1)⟩ ∧
      (∀ hats, Fits formula.puzzle hats →
        ¬ List.replicate formula.puzzle.personCount (formula.puzzle.base - 1) < hats) ∧
      formula.exhaustive.trials = formula.puzzle.base.toNat ^ formula.puzzle.personCount ∧
      formula.exhaustive.proven = true) ∧
    (formula.InReach → formula.Exact64) := by
  have hsearched : formula.searched =
      formula.puzzle.base.toNat ^ formula.puzzle.personCount := by
    rw [searched, hspace, Option.getD_some, assignmentSpace_eq_some hspace]
  have hfound : ∀ a, formula.exhaustive.outcome = .counterexample a → _ := fun a ha =>
    exhaustive_of_counterexample hbase ha hsearched
  refine ⟨⟨?_, ?_⟩, hfound, ?_, fun hreach => hreach.exact64⟩
  · rintro ⟨a, ha⟩
    exact ⟨a.hats, (hfound a ha).1, (hfound a ha).2.1⟩
  · rintro ⟨hats, hfits, hcounter⟩
    rcases formula.exhaustive_cases with ⟨first, -, -, -, hreport⟩ | ⟨hclean, -⟩
    · exact ⟨_, by rw [hreport]⟩
    · have hall := (forall_ofIndex_iff hbase (¬ formula.IsCounterexample ·) _).1 hclean
      refine absurd hcounter (hall hats hfits ?_)
      rw [hsearched]
      exact hfits.number_lt
  · intro h
    have hreport := exhaustive_of_none hbase hsearched h
    exact ⟨by rw [hreport], fun hats hfits => not_last_lt hbase hfits, by rw [hreport],
      by rw [hreport]⟩

/-- Guessing the hat of the other one of two people. -/
def other : Formula where
  source := "other"
  tokens := [.variable "other"]
  tree := .var "other" (.neighbor 1)
  puzzle := .two

/-- It is right while both hats are 0, and fails at the next assignment. -/
theorem exhaustive_other :
    1 ≤ other.puzzle.base.toNat ∧ other.puzzle.assignmentSpace = some 4 ∧
      other.exhaustive.outcome = .counterexample ⟨[0, 1]⟩ ∧
      (∀ hats, Fits .two hats → hats < [0, 1] → ¬ other.IsCounterexample hats) ∧
      2 = 1 + {hats | Fits .two hats ∧ hats < [0, 1]}.ncard ∧ other.InReach ∧ other.Exact64 := by
  have hbase : 1 ≤ other.puzzle.base.toNat := by decide
  have hspace : other.puzzle.assignmentSpace = some 4 := by decide
  have hreport : other.exhaustive = ⟨.counterexample ⟨[0, 1]⟩, .exhaustive, 2, false⟩ := by decide
  have hreach : other.InReach := by decide
  obtain ⟨-, hfound, -, hexact⟩ := exhaustive_decides other hbase hspace
  obtain ⟨-, -, hbefore, htrials, -⟩ := hfound ⟨[0, 1]⟩ (by rw [hreport])
  rw [hreport] at htrials
  exact ⟨hbase, hspace, by rw [hreport], hbefore, htrials, hreach, hexact hreach⟩

end Search

end Formula

end HatCircle
