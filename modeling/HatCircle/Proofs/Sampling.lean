import Mathlib.Logic.Function.Iterate
import Mathlib.Tactic.Choose
import HatCircle.Proofs.Drawing
import HatCircle.Proofs.Proven

/-!
# What a random search reports

A random search draws one assignment after the other and ends with the first trial that
`Stops` it: a counterexample, the cap on trials, or the end of the time, which are looked at in
this order. `reportOf` is what it reports then. As long as the draws come to an end and some
trial stops it, the search returns that report and leaves the source where the draws up to that
trial leave it, if it is only allowed enough words and trials (`EndsAfter.exists_bound`);
with fewer it returns the same or nothing (`EndsAfter.eq_of_randomizedFrom`).

So a report speaks about the assignments that were tried and nothing else (`Sampled`,
`randomized_sound`). A counterexample that it reports is one. An exhaustive search that calls
the formula proven contradicts it only if all counterexamples are hidden from that search, and
then there are words from which a counterexample is drawn. The last section has a formula with
that trouble.
-/

namespace HatCircle

/-! ### Draws in turn -/

namespace WordSource

/-- Draws of assignments one after the other: what each of them gives, numbered from one, and
where it leaves the source. -/
structure DrawsInTurn {σ : Type} [WordSource σ] (puzzle : Puzzle) (source : σ) (count : Nat)
    (drawn : Nat → Assignment) (left : Nat → σ) : Prop where
  start : left 0 = source
  draws : ∀ trial < count, Draws puzzle (left trial) (drawn (trial + 1)) (left (trial + 1))

/-- If every draw comes to an end, so do any number of them. -/
theorem exists_drawsInTurn {σ : Type} [WordSource σ] {puzzle : Puzzle}
    (h : ∀ source : σ, ∃ assignment rest, Draws puzzle source assignment rest) (source : σ) :
    ∃ drawn left, ∀ count, DrawsInTurn puzzle source count drawn left := by
  choose assignment rest hdraws using h
  let left : Nat → σ := fun trial => rest^[trial] source
  refine ⟨fun trial => assignment (left (trial - 1)), left, fun count => ⟨rfl, ?_⟩⟩
  intro trial _
  have hnext : left (trial + 1) = rest (left trial) := Function.iterate_succ_apply' rest trial source
  rw [hnext, Nat.add_sub_cancel]
  exact hdraws (left trial)

end WordSource

namespace Formula

open Assignment WordSource

/-! ### The end of a search -/

section End

variable (formula : Formula) (cap : Option Nat) (clock : Nat → Bool)

/-- The search ends with this trial: nobody is right, or the cap is reached, or the time is
up. -/
def Stops (trial : Nat) (tried : Assignment) : Prop :=
  formula.IsCounterexample tried.hats ∨ (∃ limit ∈ cap, limit ≤ trial) ∨ clock trial = true

/-- What is reported when the search ends with this trial. -/
def reportOf (trial : Nat) (tried : Assignment) : Report where
  outcome := if formula.hasCorrectGuesser tried.hats then .noCounterexampleFound tried
    else .counterexample tried
  strategy := .randomized
  trials := trial
  proven := false

variable {formula cap clock} {trial : Nat} {tried : Assignment}

theorem assignment_reportOf : (formula.reportOf trial tried).outcome.assignment = tried := by
  unfold reportOf
  split
  · rfl
  · rfl

theorem isCounterexample_reportOf_iff :
    (formula.reportOf trial tried).outcome.isCounterexample = true ↔
      formula.IsCounterexample tried.hats := by
  rw [← hasCorrectGuesser_eq_false_iff, reportOf]
  cases formula.hasCorrectGuesser tried.hats <;> simp [Outcome.isCounterexample]

theorem settle_of_stops (h : formula.Stops cap clock trial tried) :
    formula.settle cap (clock trial) trial tried = some (formula.reportOf trial tried) := by
  unfold settle reportOf
  cases hright : formula.hasCorrectGuesser tried.hats with
  | false => rfl
  | true =>
      have hends : (cap.any (· ≤ trial) || clock trial) = true := by
        rcases h with hcounter | ⟨limit, hlimit, hle⟩ | hup
        · exact absurd hcounter ((hasCorrectGuesser_eq_true_iff ..).1 hright)
        · rw [Option.mem_def.1 hlimit]
          simp [hle]
        · rw [hup, Bool.or_true]
      simp only [Bool.not_true, Bool.false_eq_true, if_false, hends, if_true]

theorem settle_of_not_stops (h : ¬ formula.Stops cap clock trial tried) :
    formula.settle cap (clock trial) trial tried = none := by
  simp only [Stops, not_or] at h
  obtain ⟨hright, hcap, htime⟩ := h
  have hopen : cap.any (· ≤ trial) = false := by
    cases cap with
    | none => rfl
    | some limit => simpa using hcap
  have hgoes : clock trial = false := Bool.eq_false_of_not_eq_true htime
  rw [settle, (hasCorrectGuesser_eq_true_iff ..).2 hright, hopen, hgoes]
  rfl

end End

/-! ### The loop -/

section Loop

variable {σ : Type} [WordSource σ] {formula : Formula} {cap : Option Nat} {clock : Nat → Bool}
  {words remaining done : Nat} {source rest : σ} {tried : Assignment}

theorem randomizedFrom_succ_of_stops
    (hdraw : drawAssignment words formula.puzzle source = some (tried, rest))
    (h : formula.Stops cap clock (done + 1) tried) :
    formula.randomizedFrom words cap clock (remaining + 1) done source =
      some (formula.reportOf (done + 1) tried, rest) := by
  rw [randomizedFrom, hdraw]
  simp only [Option.bind_eq_bind, Option.bind_some, settle_of_stops h, Option.pure_def]

theorem randomizedFrom_succ_of_not_stops
    (hdraw : drawAssignment words formula.puzzle source = some (tried, rest))
    (h : ¬ formula.Stops cap clock (done + 1) tried) :
    formula.randomizedFrom words cap clock (remaining + 1) done source =
      formula.randomizedFrom words cap clock remaining (done + 1) rest := by
  rw [randomizedFrom, hdraw]
  simp only [Option.bind_eq_bind, Option.bind_some, settle_of_not_stops h]

/-- Whatever is returned is the report of a trial that ended the search. -/
theorem exists_of_randomizedFrom {report : Report}
    (h : formula.randomizedFrom words cap clock remaining done source = some (report, rest)) :
    ∃ trial tried, (∃ before : σ, Draws formula.puzzle before tried rest) ∧
      formula.Stops cap clock trial tried ∧ report = formula.reportOf trial tried := by
  induction remaining generalizing done source with
  | zero => cases h
  | succ remaining ih =>
      have hsome := h
      rw [randomizedFrom] at hsome
      obtain ⟨⟨tried, after⟩, hdraw, -⟩ := Option.bind_eq_some_iff.1 hsome
      by_cases hstops : formula.Stops cap clock (done + 1) tried
      · rw [randomizedFrom_succ_of_stops hdraw hstops] at h
        cases h
        exact ⟨_, _, ⟨source, draws_of_drawAssignment hdraw⟩, hstops, rfl⟩
      · rw [randomizedFrom_succ_of_not_stops hdraw hstops] at h
        exact ih h

theorem fits_of_randomizedFrom (hbase : 1 ≤ formula.puzzle.base.toNat) {report : Report}
    (h : formula.randomizedFrom words cap clock remaining done source = some (report, rest)) :
    Fits formula.puzzle report.outcome.assignment.hats := by
  obtain ⟨trial, tried, ⟨before, hdraw⟩, -, rfl⟩ := exists_of_randomizedFrom h
  rw [assignment_reportOf]
  exact hdraw.fits hbase

/-- A reported counterexample is one. -/
theorem isCounterexample_of_randomizedFrom {report : Report}
    (h : formula.randomizedFrom words cap clock remaining done source = some (report, rest))
    (hfound : report.outcome.isCounterexample = true) :
    formula.IsCounterexample report.outcome.assignment.hats := by
  obtain ⟨trial, tried, -, -, rfl⟩ := exists_of_randomizedFrom h
  rw [assignment_reportOf]
  exact isCounterexample_reportOf_iff.1 hfound

end Loop

/-! ### The whole search -/

section Search

variable {σ : Type} [WordSource σ] {formula : Formula} {cap : Option Nat} {clock : Nat → Bool}
  {source : σ} {drawn : Nat → Assignment} {left : Nat → σ} {trials : Nat}

/-- The draws up to this trial come to an end, and it is the first one that stops the search. -/
structure EndsAfter (formula : Formula) (cap : Option Nat) (clock : Nat → Bool) (source : σ)
    (drawn : Nat → Assignment) (left : Nat → σ) (trials : Nat) : Prop where
  tries : 1 ≤ trials
  inTurn : DrawsInTurn formula.puzzle source trials drawn left
  goesOn : ∀ trial, 1 ≤ trial → trial < trials → ¬ formula.Stops cap clock trial (drawn trial)
  stops : formula.Stops cap clock trials (drawn trials)

/-- If some trial would stop the search, a first one does. -/
theorem exists_endsAfter {last : Nat} (hlast : 1 ≤ last)
    (hdraws : DrawsInTurn formula.puzzle source last drawn left)
    (hstops : formula.Stops cap clock last (drawn last)) :
    ∃ trials ≤ last, formula.EndsAfter cap clock source drawn left trials := by
  classical
  have hexists : ∃ trial, 1 ≤ trial ∧ formula.Stops cap clock trial (drawn trial) :=
    ⟨last, hlast, hstops⟩
  have hle : Nat.find hexists ≤ last := Nat.find_min' hexists ⟨hlast, hstops⟩
  obtain ⟨htries, hfirst⟩ := Nat.find_spec hexists
  refine ⟨_, hle, htries, ⟨hdraws.start, fun trial hlt => hdraws.draws trial (by omega)⟩, ?_,
    hfirst⟩
  intro trial hone hlt hstop
  exact Nat.find_min hexists hlt ⟨hone, hstop⟩

/-- The search goes on from each trial before the last one up to it, if it may try enough words
and assignments. -/
theorem EndsAfter.exists_bound (h : formula.EndsAfter cap clock source drawn left trials)
    {done : Nat} (hdone : done < trials) :
    ∃ least, ∀ words remaining, least ≤ words → trials ≤ done + remaining →
      formula.randomizedFrom words cap clock remaining done (left done) =
        some (formula.reportOf trials (drawn trials), left trials) := by
  -- on the number of trials that are still to come
  induction hmore : trials - done generalizing done with
  | zero => omega
  | succ more ih =>
      obtain ⟨least, hleast⟩ := (h.inTurn.draws done hdone).exists_attempts
      by_cases hlast : done + 1 = trials
      · refine ⟨least, fun words remaining hwords hremaining => ?_⟩
        obtain ⟨remaining, rfl⟩ := Nat.exists_eq_add_of_le' (by omega : 1 ≤ remaining)
        subst hlast
        exact randomizedFrom_succ_of_stops (hleast words hwords) h.stops
      · obtain ⟨least', hleast'⟩ := ih (by omega : done + 1 < trials) (by omega)
        refine ⟨max least least', fun words remaining hwords hremaining => ?_⟩
        obtain ⟨remaining, rfl⟩ := Nat.exists_eq_add_of_le' (by omega : 1 ≤ remaining)
        rw [randomizedFrom_succ_of_not_stops (hleast words (by omega))
          (h.goesOn (done + 1) (by omega) (by omega))]
        exact hleast' words remaining (by omega) (by omega)

/-- However many words and assignments it may try, it returns nothing else. -/
theorem EndsAfter.eq_of_randomizedFrom (h : formula.EndsAfter cap clock source drawn left trials)
    {words remaining done : Nat} (hdone : done < trials) {result : Report × σ}
    (hresult : formula.randomizedFrom words cap clock remaining done (left done) =
      some result) :
    result = (formula.reportOf trials (drawn trials), left trials) := by
  induction remaining generalizing done with
  | zero => cases hresult
  | succ remaining ih =>
      have hsome := hresult
      rw [randomizedFrom] at hsome
      obtain ⟨drawing, hdraw, -⟩ := Option.bind_eq_some_iff.1 hsome
      obtain rfl := (h.inTurn.draws done hdone).drawAssignment_eq hdraw
      by_cases hlast : done + 1 = trials
      · subst hlast
        rw [randomizedFrom_succ_of_stops hdraw h.stops] at hresult
        exact (Option.some.inj hresult).symm
      · rw [randomizedFrom_succ_of_not_stops hdraw
          (h.goesOn (done + 1) (by omega) (by omega))] at hresult
        exact ih (by omega) hresult

theorem EndsAfter.exists_bounds (h : formula.EndsAfter cap clock source drawn left trials) :
    ∃ least : Bounds, ∀ bounds : Bounds, least.words ≤ bounds.words →
      least.trials ≤ bounds.trials → formula.randomized bounds cap clock source =
        some (formula.reportOf trials (drawn trials), left trials) := by
  obtain ⟨least, hleast⟩ := h.exists_bound h.tries
  refine ⟨⟨least, trials⟩, fun bounds hwords htrials => ?_⟩
  rw [randomized, ← h.inTurn.start]
  refine hleast bounds.words bounds.trials hwords ?_
  rwa [Nat.zero_add]

/-- What a report says about the assignments that were drawn and about the end of the search. -/
structure Sampled (formula : Formula) (cap : Option Nat) (clock : Nat → Bool)
    (drawn : Nat → Assignment) (report : Report) : Prop where
  strategy : report.strategy = .randomized
  last : report.outcome.assignment = drawn report.trials
  fits : Fits formula.puzzle report.outcome.assignment.hats
  before : ∀ trial, 1 ≤ trial → trial < report.trials →
    ¬ formula.IsCounterexample (drawn trial).hats
  verdict : report.outcome.isCounterexample = true ↔
    formula.IsCounterexample (drawn report.trials).hats
  unproven : report.proven = false
  tries : 1 ≤ report.trials
  capped : ∀ limit ∈ cap, report.trials ≤ max 1 limit
  /-- Before the time is up only the cap ends a search without a find. -/
  spent : report.outcome.isCounterexample = false → clock report.trials = false →
    ∃ limit ∈ cap, report.trials = max 1 limit

theorem EndsAfter.sampled (h : formula.EndsAfter cap clock source drawn left trials)
    (hbase : 1 ≤ formula.puzzle.base.toNat) :
    formula.Sampled cap clock drawn (formula.reportOf trials (drawn trials)) := by
  have htries := h.tries
  have hcapped : ∀ limit ∈ cap, trials ≤ max 1 limit := by
    intro limit hlimit
    by_contra hlt
    exact h.goesOn (trials - 1) (by omega) (by omega) (.inr (.inl ⟨limit, hlimit, by omega⟩))
  refine ⟨rfl, assignment_reportOf, ?_, ?_, isCounterexample_reportOf_iff, rfl, htries,
    hcapped, ?_⟩
  · have hdraw := h.inTurn.draws (trials - 1) (by omega)
    rw [Nat.sub_add_cancel htries] at hdraw
    rw [assignment_reportOf]
    exact hdraw.fits hbase
  · intro trial hone hlt hcounter
    exact h.goesOn trial hone hlt (.inl hcounter)
  · intro hclean hopen
    have hright : ¬ formula.IsCounterexample (drawn trials).hats := by
      rw [← isCounterexample_reportOf_iff, hclean]
      exact Bool.false_ne_true
    rcases h.stops with hcounter | ⟨limit, hlimit, hle⟩ | hup
    · exact absurd hcounter hright
    · have hmax := hcapped limit hlimit
      exact ⟨limit, hlimit, by simp only [reportOf]; omega⟩
    · exact absurd (hopen.symm.trans hup) Bool.false_ne_true

/-- A random search is told of a counterexample by some words or other. -/
def Refutable (formula : Formula) : Prop :=
  ∃ (words : Nat → UInt32) (bounds : Bounds) (cap : Option Nat) (clock : Nat → Bool)
    (report : Report) (rest : Nat → UInt32),
    formula.randomized bounds cap clock words = some (report, rest) ∧
      report.outcome.isCounterexample = true

theorem refutable_iff (hbase : 1 ≤ formula.puzzle.base.toNat) :
    formula.Refutable ↔ ∃ hats, Fits formula.puzzle hats ∧ formula.IsCounterexample hats := by
  constructor
  · rintro ⟨words, bounds, cap, clock, report, rest, hresult, hfound⟩
    exact ⟨_, fits_of_randomizedFrom hbase hresult,
      isCounterexample_of_randomizedFrom hresult hfound⟩
  · rintro ⟨hats, hfits, hcounter⟩
    obtain ⟨words, hdraw⟩ := exists_draws hfits fun _ => 0
    obtain ⟨attempts, hattempts⟩ := hdraw.exists_attempts
    have hstops : formula.Stops none (fun _ => false) 1 ⟨hats⟩ := .inl hcounter
    exact ⟨words, ⟨attempts, 1⟩, none, fun _ => false, _, _,
      randomizedFrom_succ_of_stops (hattempts attempts (Nat.le_refl _)) hstops,
      isCounterexample_reportOf_iff.2 hcounter⟩

/-- When the draws come to an end and a trial stops the search, the search returns one report,
and leaves the source where the draws that the report counts leave it. The report is the one
that those draws call for. If an exhaustive search calls the formula proven, the report is
clean where the assignments can be counted, and elsewhere unless the counterexamples are hidden
from that search; and if they are, some words make a random search report one of them. With
neighbours within reach of 64 bits, no guess of the search wraps around on the way. -/
theorem randomized_sound (formula : Formula) (hbase : 1 ≤ formula.puzzle.base.toNat)
    (cap : Option Nat) (clock : Nat → Bool) {source : σ} {last : Nat} (hlast : 1 ≤ last)
    {drawn : Nat → Assignment} {left : Nat → σ}
    (hdraws : DrawsInTurn formula.puzzle source last drawn left)
    (hstops : formula.Stops cap clock last (drawn last)) :
    (∃ report : Report,
      (∃ least : Bounds, ∀ bounds : Bounds, least.words ≤ bounds.words →
        least.trials ≤ bounds.trials →
          formula.randomized bounds cap clock source = some (report, left report.trials)) ∧
      (∀ bounds result, formula.randomized bounds cap clock source = some result →
        result = (report, left report.trials)) ∧
      report.trials ≤ last ∧ formula.Sampled cap clock drawn report ∧
      (∀ space, formula.puzzle.assignmentSpace = some space → formula.exhaustive.proven = true →
        report.outcome.isCounterexample = false) ∧
      (formula.exhaustive.proven = true → ¬ formula.HidesCounterexamples →
        report.outcome.isCounterexample = false)) ∧
    (formula.exhaustive.proven = true ∧ formula.Refutable ↔ formula.HidesCounterexamples) ∧
    (formula.InReach → formula.Exact64) := by
  obtain ⟨trials, hle, hends⟩ := exists_endsAfter hlast hdraws hstops
  have hsampled := hends.sampled hbase
  have hclean : formula.exhaustive.proven = true → ¬ formula.HidesCounterexamples →
      (formula.reportOf trials (drawn trials)).outcome.isCounterexample = false := by
    intro hproven hhidden
    by_contra hfound
    rw [Bool.not_eq_false, hsampled.verdict, ← hsampled.last] at hfound
    exact hhidden ((exhaustive_unsound_iff hbase).1 ⟨hproven, _, hsampled.fits, hfound⟩)
  refine ⟨⟨formula.reportOf trials (drawn trials), hends.exists_bounds, ?_, hle, hsampled, ?_,
    hclean⟩, ?_, fun hreach => hreach.exact64⟩
  · intro bounds result hresult
    rw [randomized, ← hends.inTurn.start] at hresult
    exact hends.eq_of_randomizedFrom hends.tries hresult
  · intro space hspace hproven
    refine hclean hproven fun hhidden => ?_
    rw [hhidden.1] at hspace
    cases hspace
  · rw [refutable_iff hbase]
    exact exhaustive_unsound_iff hbase

/-- Words of zero draw the same hats for two people over and over, and both are right. With a
cap of three the search ends clean after the third trial. -/
theorem randomized_other :
    1 ≤ other.puzzle.base.toNat ∧ 1 ≤ 3 ∧
      DrawsInTurn other.puzzle (fun _ => 0 : Nat → UInt32) 3 (fun _ => ⟨[0, 0]⟩)
        (fun _ _ => 0) ∧
      other.Stops (some 3) (fun _ => false) 3 ⟨[0, 0]⟩ ∧
      other.Sampled (some 3) (fun _ => false) (fun _ => ⟨[0, 0]⟩)
        ⟨.noCounterexampleFound ⟨[0, 0]⟩, .randomized, 3, false⟩ ∧
      other.InReach ∧ other.Exact64 := by
  have hbase : 1 ≤ other.puzzle.base.toNat := by decide
  have hlast : 1 ≤ 3 := by decide
  have hdraw : drawAssignment 1 other.puzzle (fun _ => 0 : Nat → UInt32) =
      some (⟨[0, 0]⟩, fun _ => 0) := rfl
  have hdraws : DrawsInTurn other.puzzle (fun _ => 0 : Nat → UInt32) 3 (fun _ => ⟨[0, 0]⟩)
      (fun _ _ => 0) :=
    ⟨rfl, fun _ _ => draws_of_drawAssignment hdraw⟩
  have hstops : other.Stops (some 3) (fun _ => false) 3 ⟨[0, 0]⟩ :=
    .inr (.inl ⟨3, rfl, Nat.le_refl _⟩)
  have hresult : other.randomized ⟨1, 3⟩ (some 3) (fun _ => false) (fun _ => 0 : Nat → UInt32) =
      some (⟨.noCounterexampleFound ⟨[0, 0]⟩, .randomized, 3, false⟩, fun _ => 0) := rfl
  obtain ⟨⟨report, -, hunique, -, hsampled, -, -⟩, -, hexact⟩ :=
    randomized_sound other hbase (some 3) (fun _ => false) hlast hdraws hstops
  obtain rfl : _ = report := congrArg Prod.fst (hunique _ _ hresult)
  have hreach : other.InReach := by decide
  exact ⟨hbase, hlast, hdraws, hstops, hsampled, hreach, hexact hreach⟩

end Search

end Formula

/-! ### A proof and its refutation -/

/-- Eleven people and 255 colours. The assignments are too many for 64 bits, and in those that
can be counted the first two people wear the first colour. -/
def Puzzle.ring : Puzzle where
  kind := .ten
  personCount := 11
  base := 255
  vocabulary := [⟨"next", .neighbor 1⟩]
  brackets := []
  strategy := .randomized

/-- Everybody guesses the hat of the next person. -/
def Formula.next : Formula where
  source := "next"
  tokens := [.variable "next"]
  tree := .var "next" (.neighbor 1)
  puzzle := .ring

theorem Formula.compile_next : Formula.compile .ring "next" = .ok Formula.next := by
  decide +kernel

/-- Whoever wears the colour of the next person is right. -/
theorem Formula.not_isCounterexample_next {rest : List Hat} {hat : Hat}
    (h : Assignment.Fits .ring (hat :: hat :: rest)) :
    ¬ Formula.next.IsCounterexample (hat :: hat :: rest) := by
  intro hcounter
  refine hcounter 0 hat rfl ?_
  have hplace : wrap64 (((0 : Nat) : Int) + 1) % ((hat :: hat :: rest).length : Int) = 1 := by
    rw [h.1]
    rfl
  have hlt : hat.toNat < 255 := h.toNat_lt hat (by simp)
  rw [Formula.next.guess_eq h.1 (by decide)]
  simp only [next, Expr.exact, Rule.meaning, hplace, Int.toNat_one, List.getD_cons_succ,
    List.getD_cons_zero]
  exact Int.emod_eq_of_lt (by omega) (Int.ofNat_lt.2 hlt)

theorem Formula.hidesCounterexamples_next : Formula.next.HidesCounterexamples := by
  have hcounter : Formula.next.hasCorrectGuesser [1, 0, 1, 0, 1, 0, 1, 0, 1, 0, 2] = false := by
    decide +kernel
  have hfits : Assignment.Fits .ring [1, 0, 1, 0, 1, 0, 1, 0, 1, 0, 2] := by decide +kernel
  refine ⟨by decide +kernel, ⟨_, hfits, (hasCorrectGuesser_eq_false_iff ..).1 hcounter⟩, ?_⟩
  intro hats hfits hcounter
  by_contra hlt
  match hats, hfits with
  | first :: second :: rest, hfits =>
      have hrest : rest.length = 9 := Nat.succ.inj (Nat.succ.inj hfits.1)
      have hnumber := Nat.lt_of_not_le hlt
      have hbase : next.puzzle.base.toNat = 255 := rfl
      have hsize : UInt64.size = 18446744073709551616 := rfl
      rw [Assignment.number, Assignment.number, List.length_cons, hrest, hbase] at hnumber
      -- the second place is worth `255 ^ 9`, which is more than 64 bits count
      have hfirst : first = 0 := by
        rw [← UInt8.toNat_inj, UInt8.toNat_zero]
        omega
      have hsecond : second = 0 := by
        rw [← UInt8.toNat_inj, UInt8.toNat_zero]
        omega
      subst hfirst hsecond
      exact not_isCounterexample_next hfits hcounter
  | [hat], hfits => cases hfits.1
  | [], hfits => cases hfits.1

/-- What the search reports: it has tried as many assignments as an unsigned number of 64 bits
counts, and calls the formula proven. -/
theorem Formula.exhaustive_next :
    Formula.next.exhaustive = ⟨.noCounterexampleFound ⟨[0, 0, 1, 8, 28, 56, 70, 56, 28, 7, 254]⟩,
      .exhaustive, 18446744073709551615, true⟩ := by
  have hproven : Formula.next.exhaustive.proven = true :=
    ((exhaustive_unsound_iff (by decide)).2 hidesCounterexamples_next).1
  have hsearched : Formula.next.searched = 18446744073709551615 := by decide +kernel
  have hlast : Assignment.ofIndex .ring 18446744073709551614 =
      ⟨[0, 0, 1, 8, 28, 56, 70, 56, 28, 7, 254]⟩ := by decide +kernel
  rcases Formula.next.exhaustive_cases with ⟨first, -, -, -, hreport⟩ | ⟨-, hreport⟩
  · rw [hreport] at hproven
    cases hproven
  · rw [hreport, hsearched, if_neg (by decide), ← hlast]
    rfl

/-- The search calls the formula proven, and a random search with the seed 0 reports a
counterexample in its first trial. -/
theorem Formula.randomized_next :
    Formula.compile .ring "next" = .ok Formula.next ∧
      Formula.next.exhaustive =
        ⟨.noCounterexampleFound ⟨[0, 0, 1, 8, 28, 56, 70, 56, 28, 7, 254]⟩, .exhaustive,
          18446744073709551615, true⟩ ∧
      (Formula.next.randomized ⟨1, 1⟩ (some 1) (fun _ => true) (Generator.ofSeed 0)).map Prod.fst =
        some ⟨.counterexample ⟨[204, 186, 141, 197, 206, 6, 171, 148, 222, 66, 31]⟩, .randomized, 1,
          false⟩ := by
  refine ⟨compile_next, exhaustive_next, ?_⟩
  decide +kernel

end HatCircle
