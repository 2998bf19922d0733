import HatCircle.Proofs.Exhaustive
import HatCircle.Proofs.Guess
import HatCircle.Search.Run

/-!
# What a report of a proof amounts to

A report calls its outcome proven when a search has gone through all indices it set out to
go through without a counterexample (`exhaustive_proven_iff`). Where the assignments can be
counted, these are all of them. Where they are too many, the search stops short of the last
ones, and it is wrong if the counterexamples are all among those (`search_unsound_iff`).

The last section gives a formula for which it is wrong: with 64 people and two colours, the
one assignment that is not tried is the one that refutes the formula `0`.
-/

namespace HatCircle

namespace Formula

open Assignment

variable {formula : Formula}

/-- What a search reports as proven holds of the assignments that it went through. -/
theorem exhaustive_proven_iff (hbase : 1 ≤ formula.puzzle.base.toNat) :
    formula.exhaustive.proven = true ↔ ∀ hats, Fits formula.puzzle hats →
      number formula.puzzle.base.toNat hats < formula.searched →
        ¬ formula.IsCounterexample hats := by
  rw [← forall_ofIndex_iff hbase (¬ formula.IsCounterexample ·)]
  rcases formula.exhaustive_cases with ⟨first, hlt, hfirst, -, hreport⟩ | ⟨hclean, hreport⟩
  · rw [hreport]
    constructor
    · intro h
      cases h
    · intro h
      exact absurd hfirst (h first hlt)
  · rw [hreport]
    exact ⟨fun _ => hclean, fun _ => rfl⟩

/-- There are counterexamples, but the assignments cannot be counted and no counterexample
is among the first of them, as many as an unsigned number of 64 bits counts. -/
def HidesCounterexamples (formula : Formula) : Prop :=
  formula.puzzle.assignmentSpace = none ∧
    (∃ hats, Fits formula.puzzle hats ∧ formula.IsCounterexample hats) ∧
    ∀ hats, Fits formula.puzzle hats → formula.IsCounterexample hats →
      UInt64.size - 1 ≤ number formula.puzzle.base.toNat hats

/-- Exhaustive search calls a formula proven that has a counterexample exactly when all
counterexamples are hidden from it. -/
theorem exhaustive_unsound_iff (hbase : 1 ≤ formula.puzzle.base.toNat) :
    (formula.exhaustive.proven = true ∧
      ∃ hats, Fits formula.puzzle hats ∧ formula.IsCounterexample hats) ↔
      formula.HidesCounterexamples := by
  rw [exhaustive_proven_iff hbase]
  constructor
  · rintro ⟨hclean, hats, hfits, hcounter⟩
    cases hspace : formula.puzzle.assignmentSpace with
    | some space =>
        refine absurd hcounter (hclean hats hfits ?_)
        rw [searched, hspace, Option.getD_some, assignmentSpace_eq_some hspace]
        exact hfits.number_lt
    | none =>
        refine ⟨hspace, ⟨hats, hfits, hcounter⟩, fun other hother hcounter' => ?_⟩
        by_contra hlt
        refine hclean other hother ?_ hcounter'
        rw [searched, hspace, Option.getD_none]
        omega
  · rintro ⟨hspace, hexists, hhidden⟩
    refine ⟨fun hats hfits hlt hcounter => ?_, hexists⟩
    have hle := hhidden hats hfits hcounter
    rw [searched, hspace, Option.getD_none] at hlt
    omega

/-- Random trials prove nothing, and no report of them says so. -/
theorem randomizedFrom_not_proven {σ : Type} [WordSource σ] {words : Nat} {cap : Option Nat}
    {clock : Nat → Bool} {remaining done : Nat} {source : σ} {report : Report} {rest : σ}
    (h : formula.randomizedFrom words cap clock remaining done source = some (report, rest)) :
    report.proven = false := by
  induction remaining generalizing done source with
  | zero => cases h
  | succ remaining ih =>
      rw [randomizedFrom] at h
      obtain ⟨⟨assignment, source'⟩, -, h⟩ := Option.bind_eq_some_iff.1 h
      simp only at h
      split at h
      · rename_i settled hsettled
        cases h
        unfold settle at hsettled
        split at hsettled
        · cases hsettled
          rfl
        · split at hsettled
          · cases hsettled
            rfl
          · cases hsettled
      · exact ih h

/-- A search calls a formula proven that has a counterexample exactly when it is an
exhaustive one and all counterexamples are hidden from it. In particular, it is never
wrong where the assignments can be counted. -/
theorem search_unsound_iff {σ : Type} [WordSource σ] (formula : Formula)
    (hbase : 1 ≤ formula.puzzle.base.toNat) (bounds : Bounds) (cap : Option Nat)
    (clock : Nat → Bool) (source : σ) :
    ((formula.exhaustive.proven = true ∧
        ∃ hats, Fits formula.puzzle hats ∧ formula.IsCounterexample hats) ↔
      formula.HidesCounterexamples) ∧
    ∀ report rest, formula.searchWith bounds cap clock source = some (report, rest) →
      ((report.proven = true ∧
          ∃ hats, Fits formula.puzzle hats ∧ formula.IsCounterexample hats) ↔
        formula.puzzle.strategy = .exhaustive ∧ formula.HidesCounterexamples) := by
  refine ⟨exhaustive_unsound_iff hbase, fun report rest h => ?_⟩
  unfold searchWith at h
  split at h
  · rename_i hstrategy
    cases h
    rw [exhaustive_unsound_iff hbase, hstrategy]
    exact ⟨fun hhidden => ⟨rfl, hhidden⟩, fun hhidden => hhidden.2⟩
  · rename_i hstrategy
    have hproven : report.proven = false := randomizedFrom_not_proven h
    rw [hproven, hstrategy]
    constructor
    · rintro ⟨hfalse, -⟩
      cases hfalse
    · rintro ⟨hfalse, -⟩
      cases hfalse

end Formula

/-! ### A proof that is none -/

/-- Sixty-four people and two colours: the assignments are one too many for 64 bits. -/
def Puzzle.crowd : Puzzle where
  kind := .two
  personCount := 64
  base := 2
  vocabulary := []
  brackets := []
  strategy := .exhaustive

/-- Everybody guesses the colour 0. -/
def Formula.zero : Formula where
  source := "0"
  tokens := [.number "0"]
  tree := .number 0 "0"
  puzzle := .crowd

theorem Formula.compile_zero : Formula.compile .crowd "0" = .ok Formula.zero := by
  have wf : Puzzle.crowd.WellFormed := by decide
  let phrase : Phrase .sum := .product (.factor (.number "0"))
  have hnumber : Puzzle.crowd.IsNumber "0".toList := by decide
  have hadmitted : phrase.Admitted .crowd := hnumber
  have haccepted := phrase.accepted_text wf hadmitted (by decide)
  have hbuilds : phrase.Builds .crowd (.number 0 "0") :=
    .product (.factor (.number fun c hc => (hnumber.2 c hc).1))
  exact (compile_eq_ok_iff ..).2 ⟨phrase.lexemes, haccepted, parse_lexemes hbuilds, rfl, rfl, rfl⟩

/-- Nobody is right when everybody wears the other colour, and only then. -/
theorem Formula.isCounterexample_zero_iff {hats : List Hat} (h : Assignment.Fits .crowd hats) :
    Formula.zero.IsCounterexample hats ↔ hats = List.replicate 64 1 := by
  have hguess : ∀ person hat, hats[person]? = some hat → Formula.zero.guess hats person = 0 := by
    intro person hat hhat
    obtain ⟨hlt, -⟩ := List.getElem?_eq_some_iff.1 hhat
    rw [Formula.zero.guess_eq h.1 (h.1 ▸ hlt)]
    rfl
  constructor
  · intro hcounter
    refine List.eq_replicate_iff.2 ⟨h.1, fun hat hmem => ?_⟩
    obtain ⟨person, hperson⟩ := List.mem_iff_getElem?.1 hmem
    have hne := hcounter person hat hperson
    have hlt : hat.toNat < 2 := h.toNat_lt hat hmem
    rw [hguess person hat hperson] at hne
    rw [← UInt8.toNat_inj, UInt8.toNat_one]
    omega
  · rintro rfl person hat hhat
    rw [hguess person hat hhat, List.eq_of_mem_replicate (List.mem_of_getElem? hhat)]
    decide

theorem Formula.hidesCounterexamples_zero : Formula.zero.HidesCounterexamples := by
  have hbase : 1 ≤ Puzzle.crowd.base.toNat := by decide
  have hfits : Assignment.Fits .crowd (List.replicate 64 1) := Assignment.fits_last hbase
  refine ⟨rfl, ⟨_, hfits, (isCounterexample_zero_iff hfits).2 rfl⟩, fun hats hhats h => ?_⟩
  rw [(isCounterexample_zero_iff hhats).1 h]
  have hnumber : Assignment.number 2 (List.replicate 64 1) + 1 = UInt64.size :=
    Assignment.number_last hbase
  exact (Nat.sub_eq_of_eq_add hnumber.symm).le

/-- The search calls the formula proven, and it has a counterexample. -/
theorem Formula.exhaustive_zero :
    Formula.compile .crowd "0" = .ok Formula.zero ∧ Formula.zero.exhaustive.proven = true ∧
      ∃ hats, Assignment.Fits .crowd hats ∧ Formula.zero.IsCounterexample hats :=
  ⟨compile_zero, (exhaustive_unsound_iff (by decide)).2 hidesCounterexamples_zero⟩

/-- So does a search by the strategy of the puzzle. -/
theorem Formula.search_zero : 1 ≤ Formula.zero.puzzle.base.toNat ∧ ∃ report rest,
    Formula.zero.searchWith ⟨0, 0⟩ none (fun _ => false) (Generator.ofSeed 0) =
      some (report, rest) ∧
    report.proven = true ∧
      ∃ hats, Assignment.Fits .crowd hats ∧ Formula.zero.IsCounterexample hats := by
  have hbase : 1 ≤ Formula.zero.puzzle.base.toNat := by decide
  have hsearch := (search_unsound_iff Formula.zero hbase ⟨0, 0⟩ none (fun _ => false)
    (Generator.ofSeed 0)).2 _ _ rfl
  exact ⟨hbase, _, _, rfl, hsearch.2 ⟨rfl, hidesCounterexamples_zero⟩⟩

end HatCircle
