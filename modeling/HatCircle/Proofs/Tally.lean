import HatCircle.Proofs.Batches
import HatCircle.Proofs.Resuming

/-!
# A batch and its runs

Each run of a batch is a search of its own, from a seed that its number and the seed of the
batch determine. `Batch.Tallies` says what a batch of the first runs counts when one knows what
each of these searches reports: how many of them find a counterexample, how many do not, and
which find is the first.

A batch makes the searches one after the other and adds up their outcomes, so it ends if all of
them do and counts just that (`batch_tallies_runs`). Nothing is carried over from one run to the
next. The two counts are therefore the same in every order of the runs, and more runs add to the
counts without changing the first find. That a search ends is clear when it is exhaustive; a
random one with a cap ends if its draws do (`exists_search_of_cap`).
-/

namespace HatCircle

open Bounds WordSource

/-! ### Counts of reports -/

theorem Outcome.eq_counterexample_iff {outcome : Outcome} {assignment : Assignment} :
    outcome = .counterexample assignment ↔
      outcome.isCounterexample = true ∧ outcome.assignment = assignment := by
  cases outcome with
  | counterexample found => simp [isCounterexample, Outcome.assignment]
  | noCounterexampleFound last => simp [isCounterexample]

namespace Batch

/-- The batch counts the runs with numbers below `runs`, of which each reports `report run`. -/
structure Tallies (report : Nat → Report) (runs : Nat) (batch : Batch) : Prop where
  runs_eq : batch.runs = runs
  total : batch.counterexamples + batch.clean = runs
  counterexamples_eq : batch.counterexamples =
    (List.range runs).countP fun run => (report run).outcome.isCounterexample
  clean_eq : batch.clean =
    (List.range runs).countP fun run => !(report run).outcome.isCounterexample
  /-- The find that is kept is that of the run with the smallest number. -/
  first_iff : ∀ assignment, batch.firstCounterexample = some assignment ↔
    ∃ run < runs, (report run).outcome = .counterexample assignment ∧
      ∀ earlier < run, (report earlier).outcome.isCounterexample = false
  none_iff : batch.firstCounterexample = none ↔ batch.counterexamples = 0

/-- The count of the runs with these numbers, in this order. -/
def ofRuns (master : UInt64) (runs : Nat) (report : Nat → Report) (order : List Nat) : Batch :=
  (start master runs).addAll (order.map fun run => (report run).outcome)

section Counts

variable {report : Nat → Report} {runs : Nat} {batch : Batch}

section Fields

variable (master : UInt64) (runs : Nat) (report : Nat → Report) (order : List Nat)

theorem counterexamples_ofRuns : (ofRuns master runs report order).counterexamples =
    order.countP fun run => (report run).outcome.isCounterexample := by
  rw [ofRuns, counterexamples_addAll, List.countP_map, start, Nat.zero_add]
  rfl

theorem clean_ofRuns : (ofRuns master runs report order).clean =
    order.countP fun run => !(report run).outcome.isCounterexample := by
  rw [ofRuns, clean_addAll, List.countP_map, start, Nat.zero_add]
  rfl

theorem firstCounterexample_ofRuns : (ofRuns master runs report order).firstCounterexample =
    (order.find? fun run => (report run).outcome.isCounterexample).map
      fun run => (report run).outcome.assignment := by
  rw [ofRuns, firstCounterexample_addAll, List.find?_map, start, Option.none_or, Option.map_map]
  rfl

end Fields

/-- The search for the first find goes through the runs in the order of their numbers. -/
theorem find_range_iff {assignment : Assignment} :
    ((List.range runs).find? fun run => (report run).outcome.isCounterexample).map
        (fun run => (report run).outcome.assignment) = some assignment ↔
      ∃ run < runs, (report run).outcome = .counterexample assignment ∧
        ∀ earlier < run, (report earlier).outcome.isCounterexample = false := by
  simp only [Option.map_eq_some_iff, List.find?_range_eq_some, List.mem_range,
    Bool.not_eq_true', Outcome.eq_counterexample_iff]
  constructor
  · rintro ⟨run, ⟨hfound, hlt, hbefore⟩, hassignment⟩
    exact ⟨run, hlt, ⟨hfound, hassignment⟩, hbefore⟩
  · rintro ⟨run, hlt, ⟨hfound, hassignment⟩, hbefore⟩
    exact ⟨run, ⟨hfound, hlt, hbefore⟩, hassignment⟩

theorem tallies_ofRuns (master : UInt64) (runs : Nat) (report : Nat → Report) :
    Tallies report runs (ofRuns master runs report (List.range runs)) := by
  refine ⟨runs_addAll .., ?_, counterexamples_ofRuns .., clean_ofRuns .., ?_, ?_⟩
  · have htotal := List.length_eq_countP_add_countP
      (fun run => (report run).outcome.isCounterexample) (l := List.range runs)
    rw [List.length_range] at htotal
    rw [counterexamples_ofRuns, clean_ofRuns]
    simpa using htotal.symm
  · intro assignment
    rw [firstCounterexample_ofRuns]
    exact find_range_iff
  · rw [firstCounterexample_ofRuns, counterexamples_ofRuns, Option.map_eq_none_iff,
      List.find?_eq_none, List.countP_eq_zero]

/-- More runs count no less and keep what was found. -/
theorem Tallies.mono {fewer : Nat} {shorter : Batch} (h : Tallies report runs batch)
    (hshorter : Tallies report fewer shorter) (hle : fewer ≤ runs) :
    shorter.counterexamples ≤ batch.counterexamples ∧ shorter.clean ≤ batch.clean ∧
      ∀ assignment, shorter.firstCounterexample = some assignment →
        batch.firstCounterexample = some assignment := by
  have hsublist : (List.range fewer).Sublist (List.range runs) := List.range_sublist.2 hle
  refine ⟨?_, ?_, ?_⟩
  · rw [h.counterexamples_eq, hshorter.counterexamples_eq]
    exact hsublist.countP_le
  · rw [h.clean_eq, hshorter.clean_eq]
    exact hsublist.countP_le
  · intro assignment hfirst
    obtain ⟨run, hlt, hfound, hbefore⟩ := (hshorter.first_iff assignment).1 hfirst
    exact (h.first_iff assignment).2 ⟨run, hlt.trans_le hle, hfound, hbefore⟩

/-- Runs that all find the same are all finds. -/
theorem Tallies.of_forall_counterexample {assignment : Assignment}
    (h : Tallies report runs batch)
    (hall : ∀ run < runs, (report run).outcome = .counterexample assignment) :
    batch.counterexamples = runs ∧
      (0 < runs → batch.firstCounterexample = some assignment) := by
  constructor
  · rw [h.counterexamples_eq]
    refine (List.countP_eq_length.2 fun run hrun => ?_).trans List.length_range
    rw [hall run (List.mem_range.1 hrun)]
    rfl
  · intro hpos
    refine (h.first_iff assignment).2 ⟨0, hpos, hall 0 hpos, fun earlier hearlier => ?_⟩
    exact absurd hearlier (Nat.not_lt_zero earlier)

theorem Tallies.of_forall_clean (h : Tallies report runs batch)
    (hall : ∀ run < runs, (report run).outcome.isCounterexample = false) :
    batch.counterexamples = 0 ∧ batch.firstCounterexample = none := by
  have hnone : batch.counterexamples = 0 := by
    rw [h.counterexamples_eq, List.countP_eq_zero]
    intro run hrun
    rw [hall run (List.mem_range.1 hrun)]
    exact Bool.false_ne_true
  exact ⟨hnone, h.none_iff.2 hnone⟩

end Counts

end Batch

namespace Formula

/-! ### Runs in any order -/

/-- Makes the runs with these numbers in this order. -/
def batchOver (formula : Formula) (bounds : Bounds) (cap : Option Nat)
    (clock : Nat → Nat → Bool) : List Nat → Batch → Option Batch
  | [], batch => some batch
  | run :: order, batch => do
    let report ← formula.searchSeeded bounds cap (clock run) (runSeed batch.masterSeed run)
    formula.batchOver bounds cap clock order (batch.add report.outcome)

section Order

variable {formula : Formula} {cap : Option Nat} {clock : Nat → Nat → Bool}

theorem batchFrom_eq_batchOver (bounds : Bounds) (remaining run : Nat) (batch : Batch) :
    formula.batchFrom bounds cap clock remaining run batch =
      formula.batchOver bounds cap clock (List.range' run remaining) batch := by
  induction remaining generalizing run batch with
  | zero => rfl
  | succ remaining ih =>
      rw [List.range'_succ, batchFrom, batchOver]
      simp only [ih]

/-- A batch makes its runs in the order of their numbers. -/
theorem batch_eq_batchOver (bounds : Bounds) (options : Options) (fresh : UInt64) (runs : Nat) :
    formula.batch bounds options clock fresh runs =
      formula.batchOver bounds options.maxTrials clock (List.range runs)
        (.start (options.seed.getD fresh) runs) := by
  rw [batch, batchFrom_eq_batchOver, List.range_eq_range']

/-- Each run starts from its own seed and clock, so all that the runs before it leave behind is
the count. -/
theorem yields_batchOver {report : Nat → Report} {order : List Nat} {batch : Batch}
    (h : ∀ run ∈ order, Yields (fun bounds => formula.searchSeeded bounds cap (clock run)
      (runSeed batch.masterSeed run)) (report run)) :
    Yields (fun bounds => formula.batchOver bounds cap clock order batch)
      (batch.addAll (order.map fun run => (report run).outcome)) := by
  induction order generalizing batch with
  | nil => exact .const batch
  | cons run order ih =>
      rw [List.forall_mem_cons] at h
      refine h.1.bind (ih ?_)
      simpa only [Batch.masterSeed_add] using h.2

/-- A batch comes to an end if the draws of each of its random searches do. -/
theorem exists_yields_batch {options : Options} {fresh : UInt64} {runs : Nat}
    (h : formula.puzzle.strategy = .randomized → ∀ run < runs,
      formula.Halts options.maxTrials (clock run)
        (Generator.ofSeed (runSeed (options.seed.getD fresh) run))) :
    ∃ result, Yields (fun bounds => formula.batch bounds options clock fresh runs) result := by
  have : Nonempty Report := ⟨formula.exhaustive⟩
  have hreports : ∀ run < runs, ∃ report, Yields (fun bounds => formula.searchSeeded bounds
      options.maxTrials (clock run) (runSeed (options.seed.getD fresh) run)) report :=
    fun run hlt => exists_yields_searchSeeded fun hstrategy => h hstrategy run hlt
  choose! report hreport using hreports
  simp only [batch_eq_batchOver]
  exact ⟨_, yields_batchOver fun run hrun => hreport run (List.mem_range.1 hrun)⟩

end Order

/-! ### Searches that end -/

section Ends

variable {formula : Formula} {options : Options} {clock : Nat → Bool} {seed fresh : UInt64}

theorem exists_search_of_exhaustive (hstrategy : formula.puzzle.strategy = .exhaustive) :
    ∃ bounds report,
      formula.search bounds { options with seed := some seed } clock fresh = some report :=
  ⟨⟨0, 0⟩, _, searchSeeded_of_exhaustive hstrategy _⟩

/-- The cap ends a random search whose draws come to an end. -/
theorem exists_search_of_cap (hstrategy : formula.puzzle.strategy = .randomized) {limit : Nat}
    (hcap : options.maxTrials = some limit) (hlimit : 1 ≤ limit) {drawn : Nat → Assignment}
    {left : Nat → Generator}
    (hdraws : DrawsInTurn formula.puzzle (Generator.ofSeed seed) limit drawn left) :
    ∃ bounds report,
      formula.search bounds { options with seed := some seed } clock fresh = some report := by
  have hstops : formula.Stops options.maxTrials clock limit (drawn limit) :=
    .inr (.inl ⟨limit, hcap, Nat.le_refl limit⟩)
  obtain ⟨trials, -, hends⟩ := exists_endsAfter hlimit hdraws hstops
  obtain ⟨bounds, hbounds⟩ := hends.yields.exists_eq_some
  refine ⟨bounds, formula.reportOf trials (drawn trials), ?_⟩
  rw [search, searchSeeded_of_randomized hstrategy, Option.getD_some, hbounds, Option.map_some]

/-- One report for each run number, where the searches come to an end. -/
theorem exists_reports {clock : Nat → Nat → Bool} {master : UInt64} {most : Nat}
    (hends : ∀ run < most, ∃ bounds report, formula.search bounds
      { options with seed := some (runSeed master run) } (clock run) fresh = some report) :
    ∃ report : Nat → Report, ∀ run < most, Yields (fun bounds => formula.search bounds
      { options with seed := some (runSeed master run) } (clock run) fresh) (report run) := by
  have : Nonempty Report := ⟨formula.exhaustive⟩
  have hexists : ∀ run < most, ∃ report, Yields (fun bounds => formula.search bounds
      { options with seed := some (runSeed master run) } (clock run) fresh) report := by
    intro run hlt
    obtain ⟨bounds, report, hreport⟩ := hends run hlt
    exact ⟨report, yields_of_searchSeeded hreport⟩
  choose! report hreport using hexists
  exact ⟨report, hreport⟩

end Ends

/-! ### The batch -/

/-- Let the searches from the seeds that belong to the first run numbers come to an end. Then so
does every batch of as many runs or fewer, and it counts what these searches report. The counts
do not depend on the order of the runs, and they grow with the number of runs. An exhaustive
search gives the same outcome in each run. -/
theorem batch_tallies_runs (formula : Formula) {options : Options} {master : UInt64}
    (hseed : options.seed = some master) {clock : Nat → Nat → Bool} {fresh : UInt64} {most : Nat}
    (hends : ∀ run < most, ∃ bounds report, formula.search bounds
      { options with seed := some (runSeed master run) } (clock run) fresh = some report) :
    ∃ (report : Nat → Report) (result : Nat → Batch),
      (∀ run < most, Yields (fun bounds => formula.search bounds
        { options with seed := some (runSeed master run) } (clock run) fresh) (report run)) ∧
      (∀ runs ≤ most,
        Yields (fun bounds => formula.batch bounds options clock fresh runs) (result runs) ∧
        (result runs).Tallies report runs ∧
        (∀ order : List Nat, order.Perm (List.range runs) → ∃ other : Batch,
          Yields (fun bounds => formula.batchOver bounds options.maxTrials clock order
            (.start master runs)) other ∧
          other.counterexamples = (result runs).counterexamples ∧
          other.clean = (result runs).clean) ∧
        ∀ fewer ≤ runs,
          (result fewer).counterexamples ≤ (result runs).counterexamples ∧
          (result fewer).clean ≤ (result runs).clean ∧
          ∀ assignment, (result fewer).firstCounterexample = some assignment →
            (result runs).firstCounterexample = some assignment) ∧
      (formula.puzzle.strategy = .exhaustive → ∀ runs ≤ most,
        (∀ assignment, formula.exhaustive.outcome = .counterexample assignment →
          (result runs).counterexamples = runs ∧
            (0 < runs → (result runs).firstCounterexample = some assignment)) ∧
        (formula.exhaustive.outcome.isCounterexample = false →
          (result runs).counterexamples = 0 ∧ (result runs).firstCounterexample = none)) := by
  obtain ⟨report, hreport⟩ := exists_reports hends
  -- every order of the runs, that of their numbers included
  have hover : ∀ runs ≤ most, ∀ order : List Nat, order.Perm (List.range runs) →
      Yields (fun bounds => formula.batchOver bounds options.maxTrials clock order
        (.start master runs)) (.ofRuns master runs report order) := by
    intro runs hle order hperm
    apply yields_batchOver
    intro run hrun
    exact hreport run ((List.mem_range.1 (hperm.mem_iff.1 hrun)).trans_le hle)
  refine ⟨report, fun runs => .ofRuns master runs report (List.range runs), hreport, ?_, ?_⟩
  · intro runs hle
    refine ⟨?_, Batch.tallies_ofRuns .., ?_, ?_⟩
    · simp only [batch_eq_batchOver, hseed, Option.getD_some]
      exact hover runs hle _ (.refl _)
    · intro order hperm
      refine ⟨_, hover runs hle order hperm, ?_, ?_⟩
      · rw [Batch.counterexamples_ofRuns, Batch.counterexamples_ofRuns, hperm.countP_eq]
      · rw [Batch.clean_ofRuns, Batch.clean_ofRuns, hperm.countP_eq]
    · intro fewer hfewer
      exact (Batch.tallies_ofRuns ..).mono (Batch.tallies_ofRuns ..) hfewer
  · intro hstrategy runs hle
    have hsame : ∀ run < runs, report run = formula.exhaustive := fun run hlt =>
      eq_exhaustive_of_yields hstrategy (hreport run (hlt.trans_le hle))
    constructor
    · intro assignment hfound
      refine (Batch.tallies_ofRuns ..).of_forall_counterexample fun run hlt => ?_
      rw [hsame run hlt, hfound]
    · intro hclean
      refine (Batch.tallies_ofRuns ..).of_forall_clean fun run hlt => ?_
      rw [hsame run hlt, hclean]

/-- Guessing the hat of the other one of two people, against random hats. -/
def otherAtRandom : Formula :=
  { other with puzzle := { Puzzle.two with strategy := .randomized } }

/-- Five exhaustive searches for the first failure of the formula find it five times. Three random
ones with at most two trials each end too, since two colours leave no word out, and they may as
well be made from the last to the first. -/
theorem batch_tallies_runs_other :
    (∀ run < 5, ∃ bounds report, other.search bounds
      { Options.seeded 7 with seed := some (runSeed 7 run) } (fun _ => false) 0 = some report) ∧
      (∃ batch,
        Yields (fun bounds => other.batch bounds (.seeded 7) (fun _ _ => false) 0 5) batch ∧
        batch.counterexamples = 5 ∧ batch.clean = 0 ∧
        batch.firstCounterexample = some ⟨[0, 1]⟩) ∧
      (∀ run < 3, ∃ bounds report, otherAtRandom.search bounds
        { ({ seed := some 7, maxTrials := some 2 } : Options) with seed := some (runSeed 7 run) }
        (fun _ => false) 0 = some report) ∧
      ∃ batch reversed, batch.counterexamples + batch.clean = 3 ∧
        Yields (fun bounds => otherAtRandom.batch bounds { seed := some 7, maxTrials := some 2 }
          (fun _ _ => false) 0 3) batch ∧
        Yields (fun bounds => otherAtRandom.batchOver bounds (some 2) (fun _ _ => false)
          [2, 1, 0] (.start 7 3)) reversed ∧
        reversed.counterexamples = batch.counterexamples ∧ reversed.clean = batch.clean := by
  have hends : ∀ run < 5, ∃ bounds report, other.search bounds
      { Options.seeded 7 with seed := some (runSeed 7 run) } (fun _ => false) 0 = some report :=
    fun run _ => exists_search_of_exhaustive rfl
  have hcapped : ∀ run < 3, ∃ bounds report, otherAtRandom.search bounds
      { ({ seed := some 7, maxTrials := some 2 } : Options) with seed := some (runSeed 7 run) }
      (fun _ => false) 0 = some report := by
    intro run _
    have hdvd : otherAtRandom.puzzle.base.toNat ∣ UInt32.size := ⟨2147483648, rfl⟩
    obtain ⟨drawn, left, hdraws⟩ :=
      exists_drawsInTurn (exists_draws_of_dvd hdvd) (Generator.ofSeed (runSeed 7 run))
    exact exists_search_of_cap rfl rfl (by decide) (hdraws 2)
  refine ⟨hends, ?_, hcapped, ?_⟩
  · obtain ⟨report, result, -, hbatch, hexhaustive⟩ :=
      batch_tallies_runs other rfl hends
    obtain ⟨hresult, htallies, -⟩ := hbatch 5 (Nat.le_refl 5)
    obtain ⟨hall, hfirst⟩ := (hexhaustive rfl 5 (Nat.le_refl 5)).1 ⟨[0, 1]⟩ (by decide)
    have hclean : (result 5).clean = 0 := by
      have htotal := htallies.total
      omega
    exact ⟨result 5, hresult, hall, hclean, hfirst (by decide)⟩
  · obtain ⟨report, result, -, hbatch, -⟩ :=
      batch_tallies_runs otherAtRandom rfl hcapped
    obtain ⟨hresult, htallies, horder, -⟩ := hbatch 3 (Nat.le_refl 3)
    obtain ⟨reversed, hreversed, hsame⟩ := horder [2, 1, 0] (by decide)
    exact ⟨result 3, reversed, htallies.total, hresult, hreversed, hsame⟩

end Formula

end HatCircle
