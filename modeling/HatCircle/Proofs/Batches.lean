import Mathlib.Tactic.Choose
import HatCircle.Search.Batch

/-!
# What a batch counts

A batch is the count of its searches, which have nothing to do with one another: each has its
number, its own seed and its own clock. `batch_eq_some_iff` says so, with `Batch.addAll` for
the count of a list of outcomes. If no search finds a counterexample, the batch counts each of
them as clean (`batch_of_clean`).
-/

namespace HatCircle

namespace Batch

/-- Takes some outcomes into the count, the first one first. -/
def addAll (batch : Batch) (outcomes : List Outcome) : Batch :=
  outcomes.foldl add batch

theorem addAll_cons (batch : Batch) (outcome : Outcome) (outcomes : List Outcome) :
    batch.addAll (outcome :: outcomes) = (batch.add outcome).addAll outcomes := rfl

@[simp] theorem masterSeed_add (batch : Batch) (outcome : Outcome) :
    (batch.add outcome).masterSeed = batch.masterSeed := by
  cases outcome with
  | counterexample assignment => rfl
  | noCounterexampleFound assignment => rfl

/-! What a count says after some outcomes have been taken into it. -/

section Observed

variable (batch : Batch) (outcomes : List Outcome)

@[simp] theorem runs_addAll : (batch.addAll outcomes).runs = batch.runs := by
  induction outcomes generalizing batch with
  | nil => rfl
  | cons outcome outcomes ih =>
      rw [addAll_cons, ih]
      cases outcome with
      | counterexample assignment => rfl
      | noCounterexampleFound assignment => rfl

theorem counterexamples_addAll : (batch.addAll outcomes).counterexamples =
    batch.counterexamples + outcomes.countP fun outcome => outcome.isCounterexample := by
  induction outcomes generalizing batch with
  | nil => rfl
  | cons outcome outcomes ih =>
      rw [addAll_cons, ih, List.countP_cons]
      cases outcome with
      | counterexample assignment =>
          simp only [add, Outcome.isCounterexample, if_true]
          omega
      | noCounterexampleFound assignment => rfl

theorem clean_addAll : (batch.addAll outcomes).clean =
    batch.clean + outcomes.countP fun outcome => !outcome.isCounterexample := by
  induction outcomes generalizing batch with
  | nil => rfl
  | cons outcome outcomes ih =>
      rw [addAll_cons, ih, List.countP_cons]
      cases outcome with
      | counterexample assignment => rfl
      | noCounterexampleFound assignment =>
          simp only [add, Outcome.isCounterexample, Bool.not_false, if_true]
          omega

/-- The first find is kept, whatever is taken in after it. -/
theorem firstCounterexample_addAll : (batch.addAll outcomes).firstCounterexample =
    batch.firstCounterexample.or
      ((outcomes.find? fun outcome => outcome.isCounterexample).map (·.assignment)) := by
  induction outcomes generalizing batch with
  | nil => simp [addAll]
  | cons outcome outcomes ih =>
      rw [addAll_cons, ih]
      cases outcome with
      | counterexample assignment => simp [add, Outcome.isCounterexample, Outcome.assignment]
      | noCounterexampleFound assignment => simp [add, Outcome.isCounterexample]

end Observed

theorem addAll_of_clean {outcomes : List Outcome}
    (h : ∀ outcome ∈ outcomes, outcome.isCounterexample = false) (batch : Batch) :
    batch.addAll outcomes = { batch with clean := batch.clean + outcomes.length } := by
  induction outcomes generalizing batch with
  | nil => rfl
  | cons outcome outcomes ih =>
      rw [addAll_cons, ih fun other hother => h other (List.mem_cons_of_mem _ hother)]
      cases outcome with
      | counterexample assignment => cases h _ (List.mem_cons_self ..)
      | noCounterexampleFound assignment =>
          rw [add, List.length_cons, Nat.add_assoc, Nat.add_comm 1]

end Batch

namespace Formula

variable {formula : Formula} {bounds : Bounds} {clock : Nat → Nat → Bool}

theorem batchFrom_eq_some_iff {cap : Option Nat} {remaining run : Nat} {batch result : Batch} :
    formula.batchFrom bounds cap clock remaining run batch = some result ↔
      ∃ reports : List Report, reports.length = remaining ∧
        (∀ place report, reports[place]? = some report →
          formula.searchSeeded bounds cap (clock (run + place))
            (runSeed batch.masterSeed (run + place)) = some report) ∧
        result = batch.addAll (reports.map (·.outcome)) := by
  induction remaining generalizing run batch with
  | zero =>
      constructor
      · intro h
        cases h
        exact ⟨[], rfl, by simp, rfl⟩
      · rintro ⟨reports, hlength, -, rfl⟩
        obtain rfl := List.length_eq_zero_iff.1 hlength
        rfl
  | succ remaining ih =>
      simp only [batchFrom, Option.bind_eq_bind, Option.bind_eq_some_iff, ih,
        Batch.masterSeed_add]
      constructor
      · rintro ⟨first, hfirst, others, rfl, hothers, rfl⟩
        refine ⟨first :: others, rfl, fun place report hplace => ?_, rfl⟩
        cases place with
        | zero =>
            cases hplace
            exact hfirst
        | succ place =>
            have hreport := hothers place report hplace
            rwa [Nat.add_assoc, Nat.add_comm 1] at hreport
      · rintro ⟨reports, hlength, hreports, rfl⟩
        cases reports with
        | nil => cases hlength
        | cons first others =>
            refine ⟨first, hreports 0 first rfl, others, Nat.succ.inj hlength, ?_, rfl⟩
            intro place report hplace
            rw [Nat.add_assoc, Nat.add_comm 1]
            exact hreports (place + 1) report hplace

variable {options : Options} {fresh : UInt64} {runs : Nat}

/-- A batch ends if all its searches do, and counts what they report. -/
theorem batch_eq_some_iff {result : Batch} :
    formula.batch bounds options clock fresh runs = some result ↔
      ∃ reports : List Report, reports.length = runs ∧
        (∀ run report, reports[run]? = some report →
          formula.searchSeeded bounds options.maxTrials (clock run)
            (runSeed (options.seed.getD fresh) run) = some report) ∧
        result = (Batch.start (options.seed.getD fresh) runs).addAll
          (reports.map (·.outcome)) := by
  simp only [batch, batchFrom_eq_some_iff, Nat.zero_add]
  rfl

theorem batch_of_clean {result : Batch}
    (hclean : ∀ run report, formula.searchSeeded bounds options.maxTrials (clock run)
      (runSeed (options.seed.getD fresh) run) = some report →
        report.outcome.isCounterexample = false)
    (h : formula.batch bounds options clock fresh runs = some result) :
    result = ⟨options.seed.getD fresh, runs, 0, runs, none⟩ := by
  obtain ⟨reports, rfl, hreports, rfl⟩ := batch_eq_some_iff.1 h
  rw [Batch.addAll_of_clean, List.length_map]
  · simp only [Batch.start, Nat.zero_add]
  · intro outcome houtcome
    obtain ⟨report, hmem, rfl⟩ := List.mem_map.1 houtcome
    obtain ⟨run, hrun⟩ := List.mem_iff_getElem?.1 hmem
    exact hclean run report (hreports run report hrun)

/-- A batch ends if each of its searches does. -/
theorem exists_batch (h : ∀ run < runs, ∃ report,
    formula.searchSeeded bounds options.maxTrials (clock run)
      (runSeed (options.seed.getD fresh) run) = some report) :
    ∃ result, formula.batch bounds options clock fresh runs = some result := by
  choose reports hreports using h
  refine ⟨_, batch_eq_some_iff.2 ⟨List.ofFn fun run : Fin runs => reports run run.2,
    List.length_ofFn, ?_, rfl⟩⟩
  intro run report hrun
  obtain ⟨hlt, rfl⟩ := List.getElem?_eq_some_iff.1 hrun
  rw [List.getElem_ofFn]
  exact hreports run _

end Formula

end HatCircle
