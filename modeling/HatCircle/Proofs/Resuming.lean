import Mathlib.Tactic.IntervalCases
import HatCircle.Proofs.Yields

/-!
# Splitting the trials of a search

A random search that only the cap on its trials can end takes from its source what its trials
draw and nothing else. If it ends without a find, a second search from the source that it leaves
goes on as if the first one had not stopped: the two together are one search with the sum of the
caps (`EndsAfter.resume`). If it ends with a find, a greater cap changes nothing, nor does a
smaller one that still allows the trial of the find (`EndsAfter.recap`).
-/

namespace HatCircle

open WordSource

/-! ### Draws in two parts -/

namespace WordSource.DrawsInTurn

variable {σ : Type} [WordSource σ] {puzzle : Puzzle} {source : σ} {count more : Nat}
  {drawn : Nat → Assignment} {left : Nat → σ}

theorem take (h : DrawsInTurn puzzle source (count + more) drawn left) :
    DrawsInTurn puzzle source count drawn left :=
  ⟨h.start, fun trial hlt => h.draws trial (Nat.lt_add_right more hlt)⟩

/-- The later draws are draws in turn from where the earlier ones leave the source. -/
theorem drop (h : DrawsInTurn puzzle source (count + more) drawn left) :
    DrawsInTurn puzzle (left count) more (fun trial => drawn (count + trial))
      (fun trial => left (count + trial)) :=
  ⟨rfl, fun trial hlt => h.draws (count + trial) (Nat.add_lt_add_left hlt count)⟩

theorem append (h : DrawsInTurn puzzle source count drawn left)
    (hlater : DrawsInTurn puzzle (left count) more (fun trial => drawn (count + trial))
      (fun trial => left (count + trial))) :
    DrawsInTurn puzzle source (count + more) drawn left := by
  refine ⟨h.start, fun trial hlt => ?_⟩
  by_cases hearly : trial < count
  · exact h.draws trial hearly
  · obtain ⟨later, rfl⟩ := Nat.exists_eq_add_of_le (Nat.le_of_not_lt hearly)
    exact hlater.draws later (Nat.lt_of_add_lt_add_left hlt)

end WordSource.DrawsInTurn

namespace Formula

/-! ### Searches with a cap and time enough -/

section Capped

variable {σ : Type} [WordSource σ] {formula : Formula} {limit : Nat} {source : σ}
  {drawn : Nat → Assignment} {left : Nat → σ} {trials : Nat}

theorem stops_capped_iff {trial : Nat} {tried : Assignment} :
    formula.Stops (some limit) (fun _ => false) trial tried ↔
      formula.IsCounterexample tried.hats ∨ limit ≤ trial := by
  simp [Stops]

theorem exists_endsAfter_capped (hlimit : 1 ≤ limit)
    (hdraws : DrawsInTurn formula.puzzle source limit drawn left) :
    ∃ trials ≤ limit,
      formula.EndsAfter (some limit) (fun _ => false) source drawn left trials := by
  apply exists_endsAfter hlimit hdraws
  exact stops_capped_iff.2 (.inr (Nat.le_refl limit))

/-- A search without a find makes all its trials. -/
theorem EndsAfter.limit_le
    (h : formula.EndsAfter (some limit) (fun _ => false) source drawn left trials)
    (hclean : ¬ formula.IsCounterexample (drawn trials).hats) : limit ≤ trials := by
  rcases stops_capped_iff.1 h.stops with hfound | hle
  · exact absurd hfound hclean
  · exact hle

/-- A find does not depend on the cap, as long as that allows its trial. -/
theorem EndsAfter.recap
    (h : formula.EndsAfter (some limit) (fun _ => false) source drawn left trials)
    (hfound : formula.IsCounterexample (drawn trials).hats) {other : Nat}
    (hother : trials ≤ other) :
    formula.EndsAfter (some other) (fun _ => false) source drawn left trials := by
  refine ⟨h.tries, h.inTurn, ?_, stops_capped_iff.2 (.inl hfound)⟩
  intro trial hone hlt hstops
  rcases stops_capped_iff.1 hstops with hcounter | hle
  · exact h.goesOn trial hone hlt (stops_capped_iff.2 (.inl hcounter))
  · omega

/-- A second search takes up where a first one without a find has left off. -/
theorem EndsAfter.resume {later : Nat} (hlater : 1 ≤ later)
    (h : formula.EndsAfter (some limit) (fun _ => false) source drawn left limit)
    (hclean : ¬ formula.IsCounterexample (drawn limit).hats)
    (hnext : formula.EndsAfter (some later) (fun _ => false) (left limit)
      (fun trial => drawn (limit + trial)) (fun trial => left (limit + trial)) trials) :
    formula.EndsAfter (some (limit + later)) (fun _ => false) source drawn left
      (limit + trials) := by
  refine ⟨Nat.le_add_right_of_le h.tries, h.inTurn.append hnext.inTurn, ?_, ?_⟩
  · intro trial hone hlt hstops
    rcases stops_capped_iff.1 hstops with hcounter | hle
    · rcases Nat.lt_trichotomy trial limit with hbefore | rfl | hbehind
      · exact h.goesOn trial hone hbefore (stops_capped_iff.2 (.inl hcounter))
      · exact hclean hcounter
      · obtain ⟨rest, rfl⟩ := Nat.exists_eq_add_of_lt hbehind
        exact hnext.goesOn (rest + 1) (Nat.le_add_left ..) (by omega)
          (stops_capped_iff.2 (.inl hcounter))
    · -- the sum of the caps is reached no sooner than the second cap
      have hreached : later ≤ trial - limit := by omega
      exact hnext.goesOn (trial - limit) (by omega) (by omega)
        (stops_capped_iff.2 (.inr hreached))
  · rcases stops_capped_iff.1 hnext.stops with hcounter | hle
    · exact stops_capped_iff.2 (.inl hcounter)
    · exact stops_capped_iff.2 (.inr (Nat.add_le_add_left hle limit))

end Capped

/-! ### One search in two -/

section Split

variable {σ : Type} [WordSource σ]

/-- Let the draws come to an end, and the time suffice. When a search ends at its cap without a
find, a second one that goes on from there returns what one search with both caps together
returns, with the trials of the first added, and leaves the same source. When a search finds a
counterexample, so does each search whose cap allows as many trials, after the same number of
them. With neighbours within reach of 64 bits, no guess of these searches wraps around on the
way. -/
theorem budget_splits (formula : Formula) {source : σ} {first second : Nat}
    (hfirst : 1 ≤ first) (hsecond : 1 ≤ second) {drawn : Nat → Assignment} {left : Nat → σ}
    (hdraws : DrawsInTurn formula.puzzle source (first + second) drawn left) :
    (∃ report middle,
      Bounds.Yields (fun bounds =>
        formula.randomized bounds (some first) (fun _ => false) source) (report, middle) ∧
      (report.outcome.isCounterexample = false → ∃ later rest,
        Bounds.Yields (fun bounds =>
          formula.randomized bounds (some second) (fun _ => false) middle) (later, rest) ∧
        Bounds.Yields (fun bounds =>
          formula.randomized bounds (some (first + second)) (fun _ => false) source)
          ({ later with trials := first + later.trials }, rest)) ∧
      ∀ found, report.outcome = .counterexample found → ∀ cap, report.trials ≤ cap →
        Bounds.Yields (fun bounds =>
          formula.randomized bounds (some cap) (fun _ => false) source) (report, middle)) ∧
    (formula.InReach → formula.Exact64) := by
  obtain ⟨trials, hle, hends⟩ := exists_endsAfter_capped hfirst hdraws.take
  refine ⟨⟨_, _, hends.yields, ?_, ?_⟩, fun hreach => hreach.exact64⟩
  · intro hclean
    have hright : ¬ formula.IsCounterexample (drawn trials).hats := by
      rw [← isCounterexample_reportOf_iff, hclean]
      exact Bool.false_ne_true
    obtain rfl : trials = first := Nat.le_antisymm hle (hends.limit_le hright)
    obtain ⟨more, -, hmore⟩ := exists_endsAfter_capped hsecond hdraws.drop
    exact ⟨_, _, hmore.yields, (hends.resume hsecond hright hmore).yields⟩
  · intro found houtcome cap hcap
    have hfound : formula.IsCounterexample (drawn trials).hats := by
      rw [← isCounterexample_reportOf_iff, houtcome]
      rfl
    exact (hends.recap hfound hcap).yields

/-- Words from which two people draw 0 and 0, then 1 and 1, then 0 and 1, and 1 and 1 again for
good. -/
def lateWords (place : Nat) : UInt32 :=
  if place < 2 ∨ place = 4 then 0 else 2147483648

def lateHats (trial : Nat) : Assignment :=
  if trial = 1 then ⟨[0, 0]⟩ else if trial = 3 then ⟨[0, 1]⟩ else ⟨[1, 1]⟩

/-- Two people who say each other's hat fail at the third trial. Two trials are clean, and a
search that goes on from there fails at its first one. A search that may try five assignments
fails at the third one, and so does one that may try a thousand. -/
theorem budget_splits_other :
    1 ≤ 2 ∧ 1 ≤ 3 ∧
      DrawsInTurn other.puzzle lateWords (2 + 3) lateHats
        (fun trial place => lateWords (place + 2 * trial)) ∧
      Bounds.Yields (fun bounds => other.randomized bounds (some 2) (fun _ => false) lateWords)
        (⟨.noCounterexampleFound ⟨[1, 1]⟩, .randomized, 2, false⟩,
          fun place => lateWords (place + 4)) ∧
      Bounds.Yields (fun bounds => other.randomized bounds (some 3) (fun _ => false)
          fun place => lateWords (place + 4))
        (⟨.counterexample ⟨[0, 1]⟩, .randomized, 1, false⟩,
          fun place => lateWords (place + 6)) ∧
      Bounds.Yields (fun bounds => other.randomized bounds (some 5) (fun _ => false) lateWords)
        (⟨.counterexample ⟨[0, 1]⟩, .randomized, 3, false⟩,
          fun place => lateWords (place + 6)) ∧
      Bounds.Yields (fun bounds => other.randomized bounds (some 1000) (fun _ => false) lateWords)
        (⟨.counterexample ⟨[0, 1]⟩, .randomized, 3, false⟩,
          fun place => lateWords (place + 6)) ∧
      other.InReach ∧ other.Exact64 := by
  have hdraw : ∀ trial < 5,
      drawAssignment 1 other.puzzle (fun place => lateWords (place + 2 * trial)) =
        some (lateHats (trial + 1), fun place => lateWords (place + 2 * (trial + 1))) := by
    intro trial hlt
    interval_cases trial <;> rfl
  have hdraws : DrawsInTurn other.puzzle lateWords (2 + 3) lateHats
      (fun trial place => lateWords (place + 2 * trial)) :=
    ⟨rfl, fun trial hlt => draws_of_drawAssignment (hdraw trial hlt)⟩
  have htwo : other.randomized ⟨1, 2⟩ (some 2) (fun _ => false) lateWords =
      some (⟨.noCounterexampleFound ⟨[1, 1]⟩, .randomized, 2, false⟩,
        fun place => lateWords (place + 4)) := rfl
  have hmore : other.randomized ⟨1, 1⟩ (some 3) (fun _ => false)
      (fun place => lateWords (place + 4)) =
      some (⟨.counterexample ⟨[0, 1]⟩, .randomized, 1, false⟩,
        fun place => lateWords (place + 6)) := rfl
  have hthree : other.randomized ⟨1, 3⟩ (some 3) (fun _ => false) lateWords =
      some (⟨.counterexample ⟨[0, 1]⟩, .randomized, 3, false⟩,
        fun place => lateWords (place + 6)) := rfl
  have hreach : other.InReach := by decide
  refine ⟨by decide, by decide, hdraws, yields_of_randomized htwo, yields_of_randomized hmore,
    ?_, ?_, hreach, (budget_splits other (by decide) (by decide) hdraws).2 hreach⟩
  · obtain ⟨⟨report, middle, hfirst, hresume, -⟩, -⟩ :=
      budget_splits other (by decide) (by decide) hdraws
    obtain ⟨rfl, rfl⟩ := Prod.mk.inj (hfirst.unique (yields_of_randomized htwo))
    obtain ⟨later, rest, hlater, hboth⟩ := hresume rfl
    obtain ⟨rfl, rfl⟩ := Prod.mk.inj (hlater.unique (yields_of_randomized hmore))
    exact hboth
  · obtain ⟨⟨report, middle, hfirst, -, hrecap⟩, -⟩ :=
      budget_splits other (by decide : 1 ≤ 3) (by decide : 1 ≤ 2) hdraws
    obtain ⟨rfl, rfl⟩ := Prod.mk.inj (hfirst.unique (yields_of_randomized hthree))
    exact hrecap ⟨[0, 1]⟩ rfl 1000 (by decide)

end Split

end Formula

end HatCircle
