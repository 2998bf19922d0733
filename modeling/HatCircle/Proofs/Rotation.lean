import Mathlib.Data.Finset.Image
import Mathlib.Data.List.Rotate
import HatCircle.Proofs.Guess
import HatCircle.Proofs.Scoring

/-!
# Turning the circle

When everybody hands the own hat to a person a number of places away, the circle looks the same
to each person as it looked before from another place, up to the numbers of the places. A
formula that does not use these numbers (`Expr.IndexFree`) therefore tells each person what it
told the person at that other place (`guess_rotate`).

Where a rule leads is carried through the turn here, `seat_add_turn` for neighbours and
`hatSum_perm` for sums; the rest of the way to guesses, to the people who are right and to
counterexamples follows from it. That an assignment is a counterexample is hence a property of
the ring of hats, not of where counting begins (`turned_circle`).
-/

namespace HatCircle

/-! ### Formulas without places -/

/-- No variable of the tree stands for the place of the person. -/
def Expr.IndexFree : Expr → Prop
  | .number _ _ => True
  | .var _ rule => rule ≠ .ownIndex
  | .binary _ lhs rhs => lhs.IndexFree ∧ rhs.IndexFree

instance Expr.decidableIndexFree : (tree : Expr) → Decidable tree.IndexFree
  | .number _ _ => .isTrue trivial
  | .var _ rule => inferInstanceAs (Decidable (rule ≠ .ownIndex))
  | .binary _ lhs rhs => @instDecidableAnd _ _ lhs.decidableIndexFree rhs.decidableIndexFree

/-! ### What a person reads after a turn -/

section Reading

variable {hats : List Hat} {person : Nat} (turn : Nat)

theorem getD_rotate (h : person < hats.length) :
    (hats.rotate turn).getD person 0 = hats.getD ((person + turn) % hats.length) 0 := by
  rw [List.getD_eq_getElem?_getD, List.getElem?_rotate h, ← List.getD_eq_getElem?_getD]

/-- Going on from a seat by the turn leads where the offset leads from the turned place, if
neither sum wraps around. -/
theorem seat_add_turn {person count : Nat} {offset : Int} (hperson : person < count)
    (hreach : (Rule.neighbor offset).InReach count) :
    (Rule.seat person offset count + turn) % count =
      Rule.seat ((person + turn) % count) offset count := by
  have hcount : (count : Int) ≠ 0 := by omega
  have hplace : (person + turn) % count < count := Nat.mod_lt _ (by omega)
  have hseat := Int.emod_nonneg ((person : Int) + offset) hcount
  have hturned := Int.emod_nonneg ((((person + turn) % count : Nat) : Int) + offset) hcount
  rw [Rule.seat, Rule.seat, wrap64_eq (hreach.2 person hperson), wrap64_eq (hreach.2 _ hplace),
    ← Int.natCast_inj]
  push_cast at hturned ⊢
  rw [Int.toNat_of_nonneg hseat, Int.toNat_of_nonneg hturned, Int.emod_add_emod,
    Int.emod_add_emod, add_right_comm]

theorem hatSum_perm {others : List Hat} (h : hats.Perm others) : hatSum hats = hatSum others := by
  induction h with
  | nil => rfl
  | cons hat _ ih => rw [hatSum, hatSum, ih]
  | swap first second rest => exact Nat.add_left_comm ..
  | trans _ _ ih₁ ih₂ => exact ih₁.trans ih₂

/-- A rule other than the own place gives a person the number that it gave, before the turn,
the person whose hat this one has now. -/
theorem Rule.meaning_rotate {rule : Rule} (hrule : rule ≠ .ownIndex)
    (hreach : rule.InReach hats.length) (hperson : person < hats.length) :
    rule.meaning (hats.rotate turn) person =
      rule.meaning hats ((person + turn) % hats.length) := by
  have hcount : 0 < hats.length := Nat.zero_lt_of_lt hperson
  cases rule with
  | ownIndex => exact absurd rfl hrule
  | sumOfOthers =>
      have hplace := Nat.mod_lt (person + turn) hcount
      have hown : hats[(person + turn) % hats.length]? =
          some hats[(person + turn) % hats.length] := List.getElem?_eq_getElem hplace
      have hmoved : (hats.rotate turn)[person]? = some hats[(person + turn) % hats.length] := by
        rw [List.getElem?_rotate hperson, hown]
      have hbefore := meaning_sumOfOthers hown
      have hafter := meaning_sumOfOthers hmoved
      rw [hatSum_perm (List.rotate_perm hats turn)] at hafter
      omega
  | neighbor offset =>
      have hseat := seat_lt person offset hcount
      have hworn := getD_rotate turn hseat
      rw [seat_add_turn turn hperson hreach] at hworn
      simp only [meaning, List.length_rotate]
      exact congrArg (fun hat : Hat => (hat.toNat : Int)) hworn

/-- A tree without places is carried along by its rules. -/
theorem Expr.IndexFree.exact_rotate {tree : Expr} (hfree : tree.IndexFree)
    (hreach : tree.InReach hats.length) (hperson : person < hats.length) :
    tree.exact (hats.rotate turn) person =
      tree.exact hats ((person + turn) % hats.length) := by
  induction tree with
  | number value literal => rfl
  | var name rule => exact Rule.meaning_rotate turn hfree hreach hperson
  | binary op lhs rhs ihl ihr =>
      rw [exact, exact, ihl hfree.1 hreach.1, ihr hfree.2 hreach.2]

end Reading

/-! ### Guesses after a turn -/

namespace Formula

section Turned

variable {formula : Formula} {hats : List Hat} {person : Nat} (turn : Nat)
  (hfree : formula.tree.IndexFree) (hreach : formula.tree.InReach formula.puzzle.personCount)
  (hlength : hats.length = formula.puzzle.personCount)
include hfree hreach hlength

theorem guess_rotate (hperson : person < formula.puzzle.personCount) :
    formula.guess (hats.rotate turn) person =
      formula.guess hats ((person + turn) % formula.puzzle.personCount) := by
  have hplace : (person + turn) % formula.puzzle.personCount < formula.puzzle.personCount :=
    Nat.mod_lt _ (Nat.zero_lt_of_lt hperson)
  have hrotated : (hats.rotate turn).length = formula.puzzle.personCount := by
    rw [List.length_rotate, hlength]
  rw [formula.guess_eq hrotated hperson, formula.guess_eq hlength hplace,
    hfree.exact_rotate turn (hlength ▸ hreach) (hlength ▸ hperson), hlength]

/-- A person is right if the person was whose hat this one has now. -/
theorem mem_correct_rotate_iff (hperson : person < formula.puzzle.personCount) :
    person ∈ (formula.score ⟨hats.rotate turn⟩).correct ↔
      (person + turn) % formula.puzzle.personCount ∈ (formula.score ⟨hats⟩).correct := by
  rw [mem_correct_iff, mem_correct_iff, guess_rotate turn hfree hreach hlength hperson]
  simp only [List.getElem?_rotate (hlength ▸ hperson : person < hats.length), hlength]

/-- The people who are right after the turn are those who were, counted from the new
beginning. -/
theorem image_correct_rotate :
    ((formula.score ⟨hats.rotate turn⟩).correct.toFinset.image fun person =>
        (person + turn) % formula.puzzle.personCount) =
      (formula.score ⟨hats⟩).correct.toFinset := by
  have hplaces : ∀ others : List Hat, others.length = formula.puzzle.personCount →
      ∀ person ∈ (formula.score ⟨others⟩).correct, person < formula.puzzle.personCount := by
    intro others hothers person hmem
    have hrange := (formula.correct_sublist ⟨others⟩).subset hmem
    rw [← hothers]
    exact List.mem_range.1 hrange
  have hrotated : (hats.rotate turn).length = formula.puzzle.personCount := by
    rw [List.length_rotate, hlength]
  ext person
  simp only [Finset.mem_image, List.mem_toFinset]
  constructor
  · rintro ⟨before, hmem, rfl⟩
    have hbefore := hplaces _ hrotated before hmem
    exact (mem_correct_rotate_iff turn hfree hreach hlength hbefore).1 hmem
  · intro hmem
    have hperson := hplaces _ hlength person hmem
    have hcount : 0 < formula.puzzle.personCount := Nat.zero_lt_of_lt hperson
    have hturn := Nat.mod_lt turn hcount
    -- going back by the turn, which may be more than once round the circle
    have hback : ((person + (formula.puzzle.personCount - turn % formula.puzzle.personCount)) %
        formula.puzzle.personCount + turn) % formula.puzzle.personCount = person := by
      rw [Nat.mod_add_mod, ← Nat.add_mod_mod, Nat.add_assoc, Nat.sub_add_cancel hturn.le,
        Nat.add_mod_right, Nat.mod_eq_of_lt hperson]
    refine ⟨_, ?_, hback⟩
    rw [mem_correct_rotate_iff turn hfree hreach hlength (Nat.mod_lt _ hcount), hback]
    exact hmem

theorem isCounterexample_rotate_iff :
    formula.IsCounterexample (hats.rotate turn) ↔ formula.IsCounterexample hats := by
  have hempty := image_correct_rotate turn hfree hreach hlength
  rw [← formula.correct_eq_nil_iff ⟨hats⟩, ← formula.correct_eq_nil_iff ⟨hats.rotate turn⟩,
    ← List.toFinset_eq_empty_iff, ← List.toFinset_eq_empty_iff, ← hempty, Finset.image_eq_empty]

end Turned

end Formula

theorem Assignment.fits_rotate_iff {puzzle : Puzzle} {hats : List Hat} (turn : Nat) :
    Fits puzzle (hats.rotate turn) ↔ Fits puzzle hats := by
  simp only [Fits, List.length_rotate, List.mem_rotate]

/-- After a turn each place holds the hat that was `turn` places further round the circle. A
formula without places, whose neighbours are within reach of 64 bits, tells a person of the
turned circle what it told the person at that place, and nobody outside the circle anything. The
people who are right turn along, and the assignments that are counterexamples stay so. -/
theorem turned_circle (formula : Formula) (hfree : formula.tree.IndexFree)
    (hreach : formula.tree.InReach formula.puzzle.personCount) {hats : List Hat}
    (hlength : hats.length = formula.puzzle.personCount) (turn : Nat) :
    (∀ person, person < formula.puzzle.personCount →
      formula.guess (hats.rotate turn) person =
        formula.guess hats ((person + turn) % formula.puzzle.personCount)) ∧
    (∀ person, formula.puzzle.personCount ≤ person →
      formula.guess (hats.rotate turn) person = -1 ∧ formula.guess hats person = -1) ∧
    ((formula.score ⟨hats.rotate turn⟩).correct.toFinset.image fun person =>
        (person + turn) % formula.puzzle.personCount) =
      (formula.score ⟨hats⟩).correct.toFinset ∧
    (Assignment.Fits formula.puzzle (hats.rotate turn) ∧
        formula.IsCounterexample (hats.rotate turn) ↔
      Assignment.Fits formula.puzzle hats ∧ formula.IsCounterexample hats) := by
  refine ⟨?_, ?_, formula.image_correct_rotate turn hfree hreach hlength, ?_⟩
  · intro person hperson
    exact formula.guess_rotate turn hfree hreach hlength hperson
  · intro person hperson
    exact ⟨formula.guess_eq_noGuess fun h => Nat.not_lt.2 hperson h.2,
      formula.guess_eq_noGuess fun h => Nat.not_lt.2 hperson h.2⟩
  · rw [Assignment.fits_rotate_iff, formula.isCounterexample_rotate_iff turn hfree hreach hlength]

/-- In the circle of ten, turned by more than two rounds, the last person is told what the third
one was told. Of two people who say each other's hat nobody is right under 0 and 1, nor when the
two change places. -/
theorem turned_circle_ten :
    (∃ formula, Formula.compile .ten "all - l[1]×r[3]" = .ok formula ∧
      formula.tree.IndexFree ∧ formula.tree.InReach formula.puzzle.personCount ∧
      ([3, 1, 4, 1, 5, 9, 2, 6, 5, 3] : List Hat).length = Puzzle.ten.personCount ∧
      formula.guess (([3, 1, 4, 1, 5, 9, 2, 6, 5, 3] : List Hat).rotate 23) 9 =
        formula.guess [3, 1, 4, 1, 5, 9, 2, 6, 5, 3] 2) ∧
      Formula.other.tree.IndexFree ∧
      Formula.other.tree.InReach Formula.other.puzzle.personCount ∧
      Formula.other.IsCounterexample [0, 1] ∧
      Formula.other.IsCounterexample [1, 0] := by
  have hcompile : Formula.compile .ten "all - l[1]×r[3]" = .ok
      { source := "all - l[1]×r[3]"
        tokens := [.variable "all", .operator .sub, .variable "l[1]", .operator .mul,
          .variable "r[3]"]
        tree := .binary .sub (.var "all" .sumOfOthers)
          (.binary .mul (.var "l[1]" (.neighbor 1)) (.var "r[3]" (.neighbor (-3))))
        puzzle := .ten } := by decide +kernel
  have hfree : Formula.other.tree.IndexFree := by decide
  have hreach : Formula.other.tree.InReach Formula.other.puzzle.personCount := by decide
  have hlength : ([0, 1] : List Hat).length = Formula.other.puzzle.personCount := rfl
  have hfits : Assignment.Fits .two [0, 1] := by decide +kernel
  have hcounter : Formula.other.IsCounterexample [0, 1] :=
    (Formula.hasCorrectGuesser_eq_false_iff ..).1 (by decide)
  refine ⟨⟨_, hcompile, by decide, by decide, rfl, ?_⟩, hfree, hreach, hcounter, ?_⟩
  · exact (turned_circle _ (by decide) (by decide) rfl 23).1 9 (by decide)
  · exact ((turned_circle Formula.other hfree hreach hlength 1).2.2.2.2 ⟨hfits, hcounter⟩).2

end HatCircle
