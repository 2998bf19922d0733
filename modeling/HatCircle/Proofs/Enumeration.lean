import Mathlib.Algebra.BigOperators.Intervals
import HatCircle.Proofs.Exhaustive
import HatCircle.Proofs.Wire

/-!
# Indices enumerate the assignments

As long as the assignments of a puzzle can be counted, the indices below their number and the
assignments are in bijection, and the bijection keeps the order: a smaller index gives hats
that come first in lexicographic order (`indices_enumerate`). The index of an assignment is
the sum of its hats, each times the power of the number of colours for its place, the first
person having the greatest power (`number_eq_sum`). Larger indices start again from the first
assignment.

A puzzle of one colour has one assignment, and so has a puzzle without people: both are cases
of the general statement.
-/

namespace HatCircle.Assignment

/-- The number of some hats is a sum over the places. -/
theorem number_eq_sum (base : Nat) (hats : List Hat) :
    number base hats = ∑ place ∈ Finset.range hats.length,
      (hats.getD place 0).toNat * base ^ (hats.length - 1 - place) := by
  induction hats with
  | nil => rfl
  | cons hat rest ih =>
      rw [number, ih, List.length_cons, Finset.sum_range_succ', Nat.add_comm]
      simp only [List.getD_cons_succ, List.getD_cons_zero, Nat.add_sub_cancel, Nat.sub_zero]
      congr 1
      apply Finset.sum_congr rfl
      intro place _
      rw [Nat.sub_sub, Nat.add_comm 1]

section Indices

variable {puzzle : Puzzle} (hbase : 1 ≤ puzzle.base.toNat)
include hbase

theorem number_ofIndex_of_lt {index : Nat}
    (h : index < puzzle.base.toNat ^ puzzle.personCount) :
    number puzzle.base.toNat (ofIndex puzzle index).hats = index := by
  rw [number_ofIndex hbase, Nat.mod_eq_of_lt h]

/-- An index and its remainder by the number of assignments give one assignment. -/
theorem ofIndex_mod (index : Nat) :
    ofIndex puzzle index =
      ofIndex puzzle (index % puzzle.base.toNat ^ puzzle.personCount) := by
  have h := ofIndex_number hbase (fits_ofIndex hbase index)
  rw [number_ofIndex hbase] at h
  exact h.symm

theorem mapsTo_ofIndex (limit : Nat) :
    Set.MapsTo (ofIndex puzzle) (Set.Iio limit) {a | ofHats puzzle a.hats = .ok a} := by
  intro index _
  exact ofHats_eq_ok_iff.2 ⟨fits_ofIndex hbase index, rfl⟩

theorem injOn_ofIndex :
    Set.InjOn (ofIndex puzzle) (Set.Iio (puzzle.base.toNat ^ puzzle.personCount)) := by
  intro i hi j hj h
  rw [← number_ofIndex_of_lt hbase hi, ← number_ofIndex_of_lt hbase hj, h]

theorem surjOn_ofIndex :
    Set.SurjOn (ofIndex puzzle) (Set.Iio (puzzle.base.toNat ^ puzzle.personCount))
      {a | ofHats puzzle a.hats = .ok a} := by
  intro a ha
  obtain ⟨hfits, -⟩ := ofHats_eq_ok_iff.1 ha
  exact ⟨number puzzle.base.toNat a.hats, hfits.number_lt, ofIndex_number hbase hfits⟩

/-- The order of the indices is the lexicographic order of the hats. -/
theorem ofIndex_lt_ofIndex {i j : Nat} (hij : i < j)
    (hj : j < puzzle.base.toNat ^ puzzle.personCount) :
    (ofIndex puzzle i).hats < (ofIndex puzzle j).hats := by
  have hi := fits_ofIndex hbase i
  have hj' := fits_ofIndex hbase j
  rw [← number_lt_number_iff (hi.1.trans hj'.1.symm) hi.toNat_lt hj'.toNat_lt,
    number_ofIndex_of_lt hbase (hij.trans hj), number_ofIndex_of_lt hbase hj]
  exact hij

theorem eq_sum_ofIndex {index : Nat} (h : index < puzzle.base.toNat ^ puzzle.personCount) :
    index = ∑ place ∈ Finset.range puzzle.personCount,
      ((ofIndex puzzle index).hats.getD place 0).toNat *
        puzzle.base.toNat ^ (puzzle.personCount - 1 - place) := by
  have hsum := number_eq_sum puzzle.base.toNat (ofIndex puzzle index).hats
  rwa [number_ofIndex_of_lt hbase h, (fits_ofIndex hbase index).1] at hsum

/-- The indices below the number of assignments enumerate, in lexicographic order and each
once, the hats that are accepted as an assignment of the puzzle. An index is the sum of the
hats it gives, each times the power for its place, and an index beyond the last assignment
gives what its remainder gives. -/
theorem indices_enumerate {space : Nat} (hspace : puzzle.assignmentSpace = some space) :
    space = puzzle.base.toNat ^ puzzle.personCount ∧
      Set.BijOn (ofIndex puzzle) (Set.Iio space) {a | ofHats puzzle a.hats = .ok a} ∧
      (∀ i j, i < j → j < space → (ofIndex puzzle i).hats < (ofIndex puzzle j).hats) ∧
      (∀ index, index < space →
        index = ∑ place ∈ Finset.range puzzle.personCount,
          ((ofIndex puzzle index).hats.getD place 0).toNat *
            puzzle.base.toNat ^ (puzzle.personCount - 1 - place)) ∧
      ∀ index, ofIndex puzzle index = ofIndex puzzle (index % space) := by
  obtain rfl := Formula.assignmentSpace_eq_some hspace
  refine ⟨rfl, ⟨mapsTo_ofIndex hbase _, injOn_ofIndex hbase, surjOn_ofIndex hbase⟩, ?_, ?_, ?_⟩
  · intro i j hij hj
    exact ofIndex_lt_ofIndex hbase hij hj
  · intro index hindex
    exact eq_sum_ofIndex hbase hindex
  · intro index
    exact ofIndex_mod hbase index

end Indices

/-- Ten people and ten colours: the hats of an index are its decimal digits. A puzzle of one
colour has the index zero only. -/
theorem indices_enumerate_ten :
    1 ≤ Puzzle.ten.base.toNat ∧ Puzzle.ten.assignmentSpace = some 10000000000 ∧
      (ofIndex .ten 9876543210).hats = [9, 8, 7, 6, 5, 4, 3, 2, 1, 0] ∧
      ofIndex .ten 9876543210 ∈ {a | ofHats .ten a.hats = .ok a} ∧
      (ofIndex .ten 987654321).hats < (ofIndex .ten 9876543210).hats ∧
      ofIndex .ten 18446744073709551615 = ofIndex .ten 6744073709551615 ∧
      ofIndex ⟨.ten, 3, 1, [], [], .exhaustive⟩ 7 = ⟨[0, 0, 0]⟩ := by
  have hbase : 1 ≤ Puzzle.ten.base.toNat := by decide
  have hspace : Puzzle.ten.assignmentSpace = some 10000000000 := by decide +kernel
  obtain ⟨-, hbij, hmono, -, hmod⟩ := indices_enumerate hbase hspace
  have hone : (⟨.ten, 3, 1, [], [], .exhaustive⟩ : Puzzle).assignmentSpace = some 1 := by
    decide +kernel
  obtain ⟨-, -, -, -, hsame⟩ := indices_enumerate (by decide) hone
  refine ⟨hbase, hspace, by decide +kernel, hbij.mapsTo (by decide), hmono _ _ (by decide)
    (by decide), ?_, ?_⟩
  · rw [hmod]
    exact (hmod 6744073709551615).symm
  · rw [hsame]
    decide +kernel

end HatCircle.Assignment
