import HatCircle.Proofs.Sampling

/-!
# Results that do not depend on the bounds

A search is given bounds on the words and on the trials that it may use up, and the bounds are
no part of what is searched for. `Bounds.Yields` says what comes out when they are left aside:
with enough words and trials the search returns the one result, and with fewer it returns the
same or nothing. So there is at most one result, and searches that follow one another may be
looked at one by one (`Yields.unique`, `Yields.bind`).

Every search yields what it returns under some bounds or other (`yields_of_randomized`,
`yields_of_searchSeeded`), and a random search that is stopped by one of its trials yields the
report of that trial (`EndsAfter.yields`). So each search that `Halts` yields something.
-/

namespace HatCircle

open WordSource

namespace Bounds

/-- Some bounds are large enough for this result, larger ones do not change it, and no bounds
make for another one. -/
structure Yields {α : Type} (run : Bounds → Option α) (result : α) : Prop where
  enough : ∃ least : Bounds, ∀ bounds : Bounds, least.words ≤ bounds.words →
    least.trials ≤ bounds.trials → run bounds = some result
  only : ∀ bounds other, run bounds = some other → other = result

namespace Yields

variable {α β : Type} {run : Bounds → Option α} {result : α}

theorem exists_eq_some (h : Yields run result) : ∃ bounds, run bounds = some result := by
  obtain ⟨least, hleast⟩ := h.enough
  exact ⟨least, hleast least (Nat.le_refl _) (Nat.le_refl _)⟩

theorem unique {other : α} (h : Yields run result) (hother : Yields run other) :
    result = other := by
  obtain ⟨bounds, hbounds⟩ := h.exists_eq_some
  exact hother.only bounds result hbounds

/-- It is enough that bounds can be enlarged. -/
theorem of_eq_some {bounds : Bounds}
    (hmore : ∀ bounds result, run bounds = some result → ∃ least : Bounds, ∀ more : Bounds,
      least.words ≤ more.words → least.trials ≤ more.trials → run more = some result)
    (h : run bounds = some result) : Yields run result := by
  refine ⟨hmore bounds result h, fun fewer other hother => ?_⟩
  obtain ⟨least, hleast⟩ := hmore bounds result h
  obtain ⟨least', hleast'⟩ := hmore fewer other hother
  let both : Bounds := ⟨max least.words least'.words, max least.trials least'.trials⟩
  have hresult := hleast both (Nat.le_max_left ..) (Nat.le_max_left ..)
  have hsame := hleast' both (Nat.le_max_right ..) (Nat.le_max_right ..)
  exact Option.some.inj (hsame.symm.trans hresult)

theorem const (result : α) : Yields (fun _ => some result) result :=
  ⟨⟨⟨0, 0⟩, fun _ _ _ => rfl⟩, fun _ _ h => (Option.some.inj h).symm⟩

theorem map (h : Yields run result) (f : α → β) :
    Yields (fun bounds => (run bounds).map f) (f result) := by
  constructor
  · obtain ⟨least, hleast⟩ := h.enough
    refine ⟨least, fun bounds hwords htrials => ?_⟩
    rw [hleast bounds hwords htrials, Option.map_some]
  · intro bounds other hother
    obtain ⟨found, hfound, rfl⟩ := Option.map_eq_some_iff.1 hother
    rw [h.only bounds found hfound]

/-- What follows on a result is given the same bounds. -/
theorem bind {next : α → Bounds → Option β} {last : β} (h : Yields run result)
    (hnext : Yields (next result) last) :
    Yields (fun bounds => (run bounds).bind fun found => next found bounds) last := by
  constructor
  · obtain ⟨least, hleast⟩ := h.enough
    obtain ⟨least', hleast'⟩ := hnext.enough
    refine ⟨⟨max least.words least'.words, max least.trials least'.trials⟩, ?_⟩
    intro bounds hwords htrials
    have hfirst := hleast bounds (le_of_max_le_left hwords) (le_of_max_le_left htrials)
    have hlast := hleast' bounds (le_of_max_le_right hwords) (le_of_max_le_right htrials)
    rw [hfirst, Option.bind_some, hlast]
  · intro bounds other hother
    obtain ⟨found, hfound, hrest⟩ := Option.bind_eq_some_iff.1 hother
    obtain rfl := h.only bounds found hfound
    exact hnext.only bounds other hrest

end Yields

end Bounds

namespace Formula

section Random

variable {σ : Type} [WordSource σ] {formula : Formula} {cap : Option Nat} {clock : Nat → Bool}
  {source : σ}

/-- What is returned once is returned with more words and more trials. -/
theorem exists_bound_of_randomizedFrom {words remaining done : Nat} {source : σ}
    {result : Report × σ}
    (h : formula.randomizedFrom words cap clock remaining done source = some result) :
    ∃ least, ∀ more trials, least ≤ more → remaining ≤ trials →
      formula.randomizedFrom more cap clock trials done source = some result := by
  induction remaining generalizing done source with
  | zero => cases h
  | succ remaining ih =>
      have hsome := h
      rw [randomizedFrom] at hsome
      obtain ⟨⟨tried, rest⟩, hdraw, -⟩ := Option.bind_eq_some_iff.1 hsome
      obtain ⟨least, hleast⟩ := (draws_of_drawAssignment hdraw).exists_attempts
      by_cases hstops : formula.Stops cap clock (done + 1) tried
      · rw [randomizedFrom_succ_of_stops hdraw hstops] at h
        refine ⟨least, fun more trials hmore htrials => ?_⟩
        obtain ⟨trials, rfl⟩ := Nat.exists_eq_add_of_le' (by omega : 1 ≤ trials)
        rw [randomizedFrom_succ_of_stops (hleast more hmore) hstops, h]
      · rw [randomizedFrom_succ_of_not_stops hdraw hstops] at h
        obtain ⟨least', hleast'⟩ := ih h
        refine ⟨max least least', fun more trials hmore htrials => ?_⟩
        obtain ⟨trials, rfl⟩ := Nat.exists_eq_add_of_le' (by omega : 1 ≤ trials)
        rw [randomizedFrom_succ_of_not_stops (hleast more (by omega)) hstops]
        exact hleast' more trials (by omega) (by omega)

theorem yields_of_randomized {bounds : Bounds} {result : Report × σ}
    (h : formula.randomized bounds cap clock source = some result) :
    Bounds.Yields (fun bounds => formula.randomized bounds cap clock source) result := by
  refine .of_eq_some ?_ h
  intro bounds result hresult
  obtain ⟨least, hleast⟩ := exists_bound_of_randomizedFrom hresult
  exact ⟨⟨least, bounds.trials⟩, fun more hwords htrials => hleast _ _ hwords htrials⟩

/-- The report of the trial that stops the search. -/
theorem EndsAfter.yields {drawn : Nat → Assignment} {left : Nat → σ} {trials : Nat}
    (h : formula.EndsAfter cap clock source drawn left trials) :
    Bounds.Yields (fun bounds => formula.randomized bounds cap clock source)
      (formula.reportOf trials (drawn trials), left trials) := by
  obtain ⟨bounds, hbounds⟩ := h.exists_bounds
  exact yields_of_randomized (hbounds bounds (Nat.le_refl _) (Nat.le_refl _))

/-- The draws from the source come to an end, up to a trial that stops the search. -/
def Halts (formula : Formula) (cap : Option Nat) (clock : Nat → Bool) (source : σ) : Prop :=
  ∃ (last : Nat) (drawn : Nat → Assignment) (left : Nat → σ), 1 ≤ last ∧
    DrawsInTurn formula.puzzle source last drawn left ∧ formula.Stops cap clock last (drawn last)

theorem halts_of_draws {drawn : Assignment} {rest : σ}
    (hdraws : Draws formula.puzzle source drawn rest) (hstops : formula.Stops cap clock 1 drawn) :
    formula.Halts cap clock source := by
  let left : Nat → σ := fun trial => if trial = 0 then source else rest
  refine ⟨1, fun _ => drawn, left, Nat.le_refl 1, ⟨rfl, ?_⟩, hstops⟩
  intro trial hlt
  obtain rfl := Nat.lt_one_iff.1 hlt
  exact hdraws

theorem Halts.exists_yields (h : formula.Halts cap clock source) :
    ∃ result, Bounds.Yields (fun bounds => formula.randomized bounds cap clock source) result := by
  obtain ⟨last, drawn, left, hlast, hdraws, hstops⟩ := h
  obtain ⟨trials, -, hends⟩ := exists_endsAfter hlast hdraws hstops
  exact ⟨_, hends.yields⟩

end Random

section Seeded

variable {formula : Formula} {cap : Option Nat} {clock : Nat → Bool} {seed : UInt64}

theorem searchSeeded_of_exhaustive (hstrategy : formula.puzzle.strategy = .exhaustive)
    (bounds : Bounds) :
    formula.searchSeeded bounds cap clock seed = some formula.exhaustive := by
  rw [searchSeeded, searchWith, hstrategy]
  rfl

theorem eq_exhaustive_of_yields (hstrategy : formula.puzzle.strategy = .exhaustive)
    {report : Report}
    (h : Bounds.Yields (fun bounds => formula.searchSeeded bounds cap clock seed) report) :
    report = formula.exhaustive := by
  obtain ⟨bounds, hbounds⟩ := h.exists_eq_some
  rw [searchSeeded_of_exhaustive hstrategy] at hbounds
  exact (Option.some.inj hbounds).symm

theorem searchSeeded_of_randomized (hstrategy : formula.puzzle.strategy = .randomized)
    (bounds : Bounds) : formula.searchSeeded bounds cap clock seed =
      (formula.randomized bounds cap clock (Generator.ofSeed seed)).map Prod.fst := by
  rw [searchSeeded, searchWith, hstrategy]

theorem yields_of_searchSeeded {bounds : Bounds} {report : Report}
    (h : formula.searchSeeded bounds cap clock seed = some report) :
    Bounds.Yields (fun bounds => formula.searchSeeded bounds cap clock seed) report := by
  cases hstrategy : formula.puzzle.strategy with
  | exhaustive =>
      simp only [searchSeeded_of_exhaustive hstrategy] at h ⊢
      obtain rfl := Option.some.inj h
      exact .const _
  | randomized =>
      simp only [searchSeeded_of_randomized hstrategy] at h ⊢
      obtain ⟨result, hresult, rfl⟩ := Option.map_eq_some_iff.1 h
      exact (yields_of_randomized hresult).map Prod.fst

theorem exists_yields_searchSeeded (h : formula.puzzle.strategy = .randomized →
      formula.Halts cap clock (Generator.ofSeed seed)) :
    ∃ report, Bounds.Yields (fun bounds => formula.searchSeeded bounds cap clock seed) report := by
  cases hstrategy : formula.puzzle.strategy with
  | exhaustive =>
      simp only [searchSeeded_of_exhaustive hstrategy]
      exact ⟨_, .const _⟩
  | randomized =>
      obtain ⟨result, hresult⟩ := (h hstrategy).exists_yields
      simp only [searchSeeded_of_randomized hstrategy]
      exact ⟨_, hresult.map Prod.fst⟩

end Seeded

end Formula

end HatCircle
