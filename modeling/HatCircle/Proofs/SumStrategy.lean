import Mathlib.Data.List.Sort
import HatCircle.Proofs.Batches
import HatCircle.Proofs.Guess
import HatCircle.Proofs.Scoring
import HatCircle.Proofs.Tables
import HatCircle.Proofs.Yields

/-!
# The place less the sum of the others

In the formula `i - all` the own place is reduced by the sum of the other hats. A person is
right under it when the own place and the sum of all hats leave the same remainder
(`guess_sumStrategy_iff`), so the places of the people who are right are known without looking
at single hats (`correct_sumStrategy`). With as many people as colours, or more, somebody is
always right and no search finds a counterexample (`Unbeaten`).

The formula has no digits, so it compiles with any number of people and of colours, also where
the bracket variables of the circle of ten cannot be written.
-/

namespace HatCircle

open Assignment WordSource

/-! ### The formula -/

/-- Everybody guesses the own place less the sum of the other hats. -/
def Formula.sumStrategy (puzzle : Puzzle) : Formula where
  source := "i - all"
  tokens := [.variable "i", .operator .sub, .variable "all"]
  tree := .binary .sub (.var "i" .ownIndex) (.var "all" .sumOfOthers)
  puzzle := puzzle

namespace Formula

section Meaning

variable {puzzle : Puzzle}

theorem compile_sumStrategy (same : Puzzle.ten.SameTables puzzle) :
    compile puzzle "i - all" = .ok (sumStrategy puzzle) := by
  let phrase : Phrase .sum :=
    .join (.product (.factor (.variable "i"))) .sub rfl (.factor (.variable "all"))
  have hi : (⟨"i", .ownIndex⟩ : NamedVariable) ∈ Puzzle.ten.vocabulary := by decide
  have hall : (⟨"all", .sumOfOthers⟩ : NamedVariable) ∈ Puzzle.ten.vocabulary := by decide
  have haccepted := phrase.accepted_text Puzzle.wellFormed_ten ⟨.word hi, .word hall⟩ (by decide)
  have hfirst : puzzle.vocabulary = [] ++ ⟨"all", .sumOfOthers⟩ :: [⟨"i", .ownIndex⟩] :=
    same.vocabulary.symm
  have hsecond : puzzle.vocabulary = [⟨"all", .sumOfOthers⟩] ++ ⟨"i", .ownIndex⟩ :: [] :=
    same.vocabulary.symm
  have hbuilds : phrase.Builds puzzle (sumStrategy puzzle).tree :=
    .join (.product (.factor (.variable (.word hsecond (by simp)))))
      (.factor (.variable (.word hfirst (by simp))))
  exact (compile_eq_ok_iff ..).2 ⟨phrase.lexemes, same.accepted (by decide) haccepted,
    parse_lexemes hbuilds, rfl, rfl, rfl⟩

/-- A person is right when the own place and the sum of all hats leave the same remainder. -/
theorem guess_sumStrategy_iff {hats : List Hat} (hfits : Fits puzzle hats)
    (hbase : 1 ≤ puzzle.base.toNat) {person : Nat} {hat : Hat} (h : hats[person]? = some hat) :
    (sumStrategy puzzle).guess hats person = hat.toNat ↔
      person ≡ hatSum hats [MOD puzzle.base.toNat] := by
  obtain ⟨hlt, -⟩ := List.getElem?_eq_some_iff.1 h
  have hhat : hat.toNat < puzzle.base.toNat := hfits.toNat_lt hat (List.mem_of_getElem? h)
  have hsum := Rule.meaning_sumOfOthers h
  have hown : (hat.toNat : Int) % puzzle.base.toNat = hat.toNat :=
    Int.emod_eq_of_lt (Int.natCast_nonneg _) (Int.ofNat_lt.2 hhat)
  have hguess : (sumStrategy puzzle).guess hats person =
      (person - Rule.sumOfOthers.meaning hats person) % puzzle.base.toNat := by
    rw [guess_eq _ hfits.1 (hfits.1 ▸ hlt), ← modulus_eq hbase]
    rfl
  -- the own hat drops out: it is what the sum of the others lacks
  have hdifference : (person : Int) - Rule.sumOfOthers.meaning hats person - hat.toNat =
      person - hatSum hats := by
    omega
  rw [hguess, ← Int.natCast_modEq_iff]
  constructor
  · intro h
    rw [← hown, Int.emod_eq_emod_iff_emod_sub_eq_zero, hdifference] at h
    exact Int.emod_eq_emod_iff_emod_sub_eq_zero.2 h
  · intro h
    rw [← hown, Int.emod_eq_emod_iff_emod_sub_eq_zero, hdifference]
    exact Int.emod_eq_emod_iff_emod_sub_eq_zero.1 h

/-- The people who are right are those whose places are the sum of all hats, up to multiples of
the number of colours. -/
theorem correct_sumStrategy {hats : List Hat} (hfits : Fits puzzle hats)
    (hbase : 1 ≤ puzzle.base.toNat) :
    ((sumStrategy puzzle).score ⟨hats⟩).correct = (List.range puzzle.personCount).filter
      fun person => person % puzzle.base.toNat = hatSum hats % puzzle.base.toNat := by
  have hsorted : (List.range puzzle.personCount).Pairwise (· < ·) := List.pairwise_lt_range
  have hsublist := (sumStrategy puzzle).correct_sublist ⟨hats⟩
  rw [hfits.1] at hsublist
  refine List.Pairwise.eq_of_mem_iff (hsorted.sublist hsublist) (hsorted.filter _) fun person => ?_
  rw [mem_correct_iff, List.mem_filter, List.mem_range, decide_eq_true_eq]
  constructor
  · rintro ⟨hat, hhat, hright⟩
    obtain ⟨hlt, -⟩ := List.getElem?_eq_some_iff.1 hhat
    exact ⟨hfits.1 ▸ hlt, (guess_sumStrategy_iff hfits hbase hhat).1 hright⟩
  · rintro ⟨hlt, hright⟩
    have hhat := List.getElem?_eq_getElem (hfits.1.symm ▸ hlt : person < hats.length)
    exact ⟨_, hhat, (guess_sumStrategy_iff hfits hbase hhat).2 hright⟩

/-- With as many people as colours one person alone is right. -/
theorem correct_sumStrategy_of_eq {hats : List Hat} (hfits : Fits puzzle hats)
    (hbase : 1 ≤ puzzle.base.toNat) (heq : puzzle.personCount = puzzle.base.toNat) :
    ((sumStrategy puzzle).score ⟨hats⟩).correct = [hatSum hats % puzzle.base.toNat] := by
  have hsorted : (List.range puzzle.personCount).Pairwise (· < ·) := List.pairwise_lt_range
  have hplace : hatSum hats % puzzle.base.toNat < puzzle.base.toNat := Nat.mod_lt _ hbase
  rw [correct_sumStrategy hfits hbase]
  refine List.Pairwise.eq_of_mem_iff (hsorted.filter _) (List.pairwise_singleton ..) ?_
  intro person
  rw [List.mem_filter, List.mem_range, List.mem_singleton, decide_eq_true_eq, heq]
  constructor
  · rintro ⟨hlt, hright⟩
    rwa [Nat.mod_eq_of_lt hlt] at hright
  · rintro rfl
    exact ⟨hplace, Nat.mod_eq_of_lt hplace⟩

/-- With enough people somebody is right under every assignment. -/
theorem not_isCounterexample_sumStrategy {hats : List Hat} (hfits : Fits puzzle hats)
    (hbase : 1 ≤ puzzle.base.toNat) (hle : puzzle.base.toNat ≤ puzzle.personCount) :
    ¬ (sumStrategy puzzle).IsCounterexample hats := by
  have hplace : hatSum hats % puzzle.base.toNat < puzzle.base.toNat := Nat.mod_lt _ hbase
  have hmem : hatSum hats % puzzle.base.toNat ∈ ((sumStrategy puzzle).score ⟨hats⟩).correct := by
    rw [correct_sumStrategy hfits hbase, List.mem_filter, List.mem_range, decide_eq_true_eq]
    exact ⟨by omega, Nat.mod_mod ..⟩
  intro hcounter
  rw [← correct_eq_nil_iff _ ⟨hats⟩] at hcounter
  rw [hcounter] at hmem
  cases hmem

theorem hatSum_replicate_zero (count : Nat) : hatSum (List.replicate count 0) = 0 := by
  induction count with
  | zero => rfl
  | succ count ih => rw [List.replicate_succ, hatSum, ih, UInt8.toNat_zero]

/-- With fewer people than colours some hats have as many people for their sum. -/
theorem exists_hatSum_eq (hlt : puzzle.personCount < puzzle.base.toNat) :
    ∃ hats, Fits puzzle hats ∧ hatSum hats = puzzle.personCount := by
  have hsize := puzzle.base.toNat_lt
  cases hcount : puzzle.personCount with
  | zero => exact ⟨[], ⟨hcount.symm, by simp⟩, rfl⟩
  | succ others =>
      have hfirst : (UInt8.ofNat (others + 1)).toNat = others + 1 :=
        UInt8.toNat_ofNat_of_lt' (show others + 1 < 256 by omega)
      refine ⟨UInt8.ofNat (others + 1) :: List.replicate others 0, ⟨?_, fun hat hmem => ?_⟩, ?_⟩
      · rw [List.length_cons, List.length_replicate, hcount]
      · rw [UInt8.lt_iff_toNat_lt]
        rcases List.mem_cons.1 hmem with rfl | hmem
        · omega
        · rw [List.eq_of_mem_replicate hmem, UInt8.toNat_zero]
          omega
      · rw [hatSum, hfirst, hatSum_replicate_zero, Nat.add_zero]

/-- If the sum of the hats is the place behind the last one, nobody is right. -/
theorem exists_isCounterexample_sumStrategy (hlt : puzzle.personCount < puzzle.base.toNat) :
    ∃ hats, Fits puzzle hats ∧ (sumStrategy puzzle).IsCounterexample hats := by
  obtain ⟨hats, hfits, hsum⟩ := exists_hatSum_eq hlt
  refine ⟨hats, hfits, ?_⟩
  rw [← correct_eq_nil_iff _ ⟨hats⟩, correct_sumStrategy hfits (by omega), hsum,
    List.filter_eq_nil_iff]
  intro person hperson
  have hplace := List.mem_range.1 hperson
  rw [decide_eq_true_eq, Nat.mod_eq_of_lt (hplace.trans hlt), Nat.mod_eq_of_lt hlt]
  omega

end Meaning

/-! ### Searches in vain -/

/-- No search finds a counterexample. A random search ends all the same when a trial meets the
cap or the end of the time, and a batch when its searches end. -/
structure Unbeaten (formula : Formula) : Prop where
  randomized {σ : Type} [WordSource σ] (bounds : Bounds) (cap : Option Nat) (clock : Nat → Bool)
    (source rest : σ) (report : Report) :
    formula.randomized bounds cap clock source = some (report, rest) →
      report.outcome.isCounterexample = false
  randomizedEnds {σ : Type} [WordSource σ] (cap : Option Nat) (clock : Nat → Bool) (source : σ)
    (last : Nat) (drawn : Nat → Assignment) (left : Nat → σ) :
    1 ≤ last → DrawsInTurn formula.puzzle source last drawn left →
      (∃ limit ∈ cap, limit ≤ last) ∨ clock last = true →
        ∃ least : Bounds, ∀ bounds : Bounds, least.words ≤ bounds.words →
          least.trials ≤ bounds.trials →
            ∃ report rest, formula.randomized bounds cap clock source = some (report, rest)
  batch (bounds : Bounds) (options : Options) (clock : Nat → Nat → Bool) (fresh : UInt64)
    (runs : Nat) (result : Batch) :
    formula.batch bounds options clock fresh runs = some result →
      result = ⟨options.seed.getD fresh, runs, 0, runs, none⟩
  batchEnds (bounds : Bounds) (options : Options) (clock : Nat → Nat → Bool) (fresh : UInt64)
    (runs : Nat) :
    (∀ run < runs, ∃ report, formula.searchSeeded bounds options.maxTrials (clock run)
      (runSeed (options.seed.getD fresh) run) = some report) →
        ∃ result, formula.batch bounds options clock fresh runs = some result
  exhaustive : formula.exhaustive.outcome.isCounterexample = false
  proven : formula.exhaustive.proven = true

section Vain

variable {formula : Formula} (hbase : 1 ≤ formula.puzzle.base.toNat)
  (hnone : ∀ hats, Fits formula.puzzle hats → ¬ formula.IsCounterexample hats)
include hbase hnone

theorem isCounterexample_randomized_eq_false {σ : Type} [WordSource σ] {bounds : Bounds}
    {cap : Option Nat} {clock : Nat → Bool} {source rest : σ} {report : Report}
    (h : formula.randomized bounds cap clock source = some (report, rest)) :
    report.outcome.isCounterexample = false := by
  by_contra hfound
  rw [Bool.not_eq_false] at hfound
  exact hnone _ (fits_of_randomizedFrom hbase h) (isCounterexample_of_randomizedFrom h hfound)

theorem exhaustive_clean : formula.exhaustive.outcome.isCounterexample = false ∧
    formula.exhaustive.proven = true := by
  rcases formula.exhaustive_cases with ⟨first, -, hfirst, -, -⟩ | ⟨-, hreport⟩
  · exact absurd hfirst (hnone _ (fits_ofIndex hbase first))
  · rw [hreport]
    exact ⟨rfl, rfl⟩

theorem isCounterexample_searchSeeded_eq_false {bounds : Bounds} {cap : Option Nat}
    {clock : Nat → Bool} {seed : UInt64} {report : Report}
    (h : formula.searchSeeded bounds cap clock seed = some report) :
    report.outcome.isCounterexample = false := by
  cases hstrategy : formula.puzzle.strategy with
  | exhaustive =>
      rw [searchSeeded_of_exhaustive hstrategy] at h
      obtain rfl := Option.some.inj h
      exact (exhaustive_clean hbase hnone).1
  | randomized =>
      rw [searchSeeded_of_randomized hstrategy] at h
      obtain ⟨⟨found, rest⟩, hsearch, rfl⟩ := Option.map_eq_some_iff.1 h
      exact isCounterexample_randomized_eq_false hbase hnone hsearch

/-- What has no counterexample is not beaten. -/
theorem unbeaten_of_no_counterexample : formula.Unbeaten where
  randomized _ _ _ _ _ _ h := isCounterexample_randomized_eq_false hbase hnone h
  randomizedEnds cap clock source last drawn left hlast hdraws hstops := by
    obtain ⟨trials, -, hends⟩ := exists_endsAfter hlast hdraws (.inr hstops)
    obtain ⟨least, hleast⟩ := hends.exists_bounds
    exact ⟨least, fun bounds hwords htrials => ⟨_, _, hleast bounds hwords htrials⟩⟩
  batch _ _ _ _ _ _ h := batch_of_clean
    (fun _ _ hreport => isCounterexample_searchSeeded_eq_false hbase hnone hreport) h
  batchEnds _ _ _ _ _ h := exists_batch h
  exhaustive := (exhaustive_clean hbase hnone).1
  proven := (exhaustive_clean hbase hnone).2

end Vain

end Formula

/-- In a puzzle with the variables of the circle of ten, whatever its people and colours are,
the place less the sum of the other hats makes those people right whose place is the sum of all
hats, up to multiples of the number of colours. With as many people as colours this is one
person always, with more no search finds a counterexample either, and with fewer there is one. -/
theorem sum_strategy_unbeaten {puzzle : Puzzle} (same : Puzzle.ten.SameTables puzzle)
    (hbase : 1 ≤ puzzle.base.toNat) :
    ∃ formula, Formula.compile puzzle "i - all" = .ok formula ∧
      (∀ hats, Fits puzzle hats →
        (formula.score ⟨hats⟩).correct = (List.range puzzle.personCount).filter fun person =>
          person % puzzle.base.toNat = hatSum hats % puzzle.base.toNat) ∧
      (puzzle.personCount = puzzle.base.toNat → ∀ hats, Fits puzzle hats →
        (formula.score ⟨hats⟩).correct = [hatSum hats % puzzle.base.toNat]) ∧
      (puzzle.base.toNat ≤ puzzle.personCount → formula.Unbeaten) ∧
      (puzzle.personCount < puzzle.base.toNat →
        ∃ hats, Fits puzzle hats ∧ formula.IsCounterexample hats) := by
  refine ⟨Formula.sumStrategy puzzle, Formula.compile_sumStrategy same, ?_, ?_, ?_, ?_⟩
  · intro hats hfits
    exact Formula.correct_sumStrategy hfits hbase
  · intro heq hats hfits
    exact Formula.correct_sumStrategy_of_eq hfits hbase heq
  · intro hle
    exact Formula.unbeaten_of_no_counterexample hbase fun hats hfits =>
      Formula.not_isCounterexample_sumStrategy hfits hbase hle
  · intro hlt
    exact Formula.exists_isCounterexample_sumStrategy hlt

/-- In the circle of ten one person is right, whatever the hats, and with two people left in it
some hats make both wrong. -/
theorem sum_strategy_ten :
    Puzzle.ten.SameTables .ten ∧ 1 ≤ Puzzle.ten.base.toNat ∧
      (∃ formula, Formula.compile .ten "i - all" = .ok formula ∧ formula.Unbeaten ∧
        ∀ hats, Fits .ten hats → (formula.score ⟨hats⟩).correct = [hatSum hats % 10]) ∧
      ∃ formula, Formula.compile { Puzzle.ten with personCount := 2 } "i - all" = .ok formula ∧
        ∃ hats, Fits { Puzzle.ten with personCount := 2 } hats ∧
          formula.IsCounterexample hats := by
  have hbase : 1 ≤ Puzzle.ten.base.toNat := by decide
  refine ⟨⟨rfl, rfl⟩, hbase, ?_, ?_⟩
  · obtain ⟨formula, hformula, -, hone, hunbeaten, -⟩ := sum_strategy_unbeaten ⟨rfl, rfl⟩ hbase
    exact ⟨formula, hformula, hunbeaten (by decide), hone rfl⟩
  · have same : Puzzle.ten.SameTables { Puzzle.ten with personCount := 2 } := ⟨rfl, rfl⟩
    obtain ⟨formula, hformula, -, -, -, hbeaten⟩ := sum_strategy_unbeaten same hbase
    exact ⟨formula, hformula, hbeaten (by decide)⟩

end HatCircle
