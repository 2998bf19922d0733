import HatCircle.Proofs.Recognition
import HatCircle.Proofs.Sampling

/-!
# The wire form is exact

A list of numbers is read as an outcome exactly when it is the wire form of that outcome and
the assignment belongs to the puzzle (`ofWire_eq_ok_iff`). Writing and reading are therefore
inverse to each other. The mark at the end of a clean outcome is the number of no hat, so the
wire form alone determines the outcome (`toWire_injective`), and it does not matter for which
puzzle a list is read as long as it is read at all.
-/

namespace HatCircle

open Assignment

theorem ofHats_eq_ok_iff {puzzle : Puzzle} {hats : List Hat} {assignment : Assignment} :
    ofHats puzzle hats = .ok assignment ↔ Fits puzzle hats ∧ assignment = ⟨hats⟩ := by
  unfold ofHats
  split
  · rename_i hlength
    constructor
    · intro h
      cases h
    · rintro ⟨hfits, -⟩
      exact absurd hfits.1 hlength
  · rename_i hlength
    cases hfind : hats.zipIdx.find? fun entry => puzzle.base ≤ entry.1 with
    | some entry =>
        have hmem := List.fst_mem_of_mem_zipIdx (List.mem_of_find?_eq_some hfind)
        have hle : puzzle.base ≤ entry.1 := by simpa using List.find?_some hfind
        constructor
        · intro h
          cases h
        · rintro ⟨hfits, -⟩
          exact absurd (hfits.2 _ hmem) (UInt8.not_lt.2 hle)
    | none =>
        have hfits : Fits puzzle hats := by
          refine ⟨Decidable.not_not.1 hlength, fun hat hmem => ?_⟩
          obtain ⟨place, hplace⟩ := List.mem_iff_getElem?.1 hmem
          have hentry := List.mk_mem_zipIdx_iff_getElem?.2 hplace
          simpa using List.find?_eq_none.1 hfind _ hentry
        constructor
        · intro h
          exact ⟨hfits, (Except.ok.inj h).symm⟩
        · rintro ⟨-, rfl⟩
          rfl

theorem map_eq_ok_iff {ε α β : Type} (result : Except ε α) (f : α → β) (b : β) :
    result.map f = .ok b ↔ ∃ a, result = .ok a ∧ f a = b := by
  cases result with
  | error e => simp [Except.map]
  | ok a => simp [Except.map]

theorem mapError_eq_ok_iff {ε ε' α : Type} (result : Except ε α) (f : ε → ε') (a : α) :
    result.mapError f = .ok a ↔ result = .ok a := by
  cases result with
  | error e => simp [Except.mapError]
  | ok a => simp [Except.mapError]

namespace Outcome

/-! ### Hats as numbers -/

theorem readHat_eq_ok_iff {number : Int} {hat : Hat} :
    readHat number = .ok hat ↔ number = hat.toNat := by
  have hlt := hat.toNat_lt
  unfold readHat
  split
  · rename_i hrange
    have hnumber : number.toNat < UInt8.size := (Int.toNat_lt hrange.1).2 hrange.2
    rw [Except.ok.injEq, ← UInt8.toNat_inj, UInt8.toNat_ofNat_of_lt' hnumber]
    omega
  · constructor
    · intro h
      cases h
    · intro h
      omega

theorem mapM_readHat_eq_ok_iff {numbers : List Int} {hats : List Hat} :
    numbers.mapM readHat = .ok hats ↔ numbers = hats.map fun hat => (hat.toNat : Int) := by
  induction numbers generalizing hats with
  | nil =>
      rw [List.mapM_nil]
      constructor
      · intro h
        obtain rfl := Except.ok.inj h
        rfl
      · intro h
        rw [List.map_eq_nil_iff.1 h.symm]
        rfl
  | cons number numbers ih =>
      simp only [List.mapM_cons, bind_eq_ok_iff, readHat_eq_ok_iff, ih]
      constructor
      · rintro ⟨hat, rfl, rest, rfl, h⟩
        obtain rfl := Except.ok.inj h
        rfl
      · intro h
        cases hats with
        | nil => cases h
        | cons hat rest =>
            obtain ⟨hnumber, hrest⟩ := List.cons_eq_cons.1 h
            exact ⟨hat, hnumber, rest, hrest, rfl⟩

theorem readAssignment_eq_ok_iff {puzzle : Puzzle} {numbers : List Int}
    {assignment : Assignment} : readAssignment puzzle numbers = .ok assignment ↔
      Fits puzzle assignment.hats ∧ numbers = hatNumbers assignment := by
  simp only [readAssignment, bind_eq_ok_iff, mapM_readHat_eq_ok_iff, mapError_eq_ok_iff,
    ofHats_eq_ok_iff]
  constructor
  · rintro ⟨hats, hnumbers, hfits, rfl⟩
    exact ⟨hfits, hnumbers⟩
  · rintro ⟨hfits, hnumbers⟩
    exact ⟨assignment.hats, hnumbers, hfits, rfl⟩

theorem length_hatNumbers (assignment : Assignment) :
    (hatNumbers assignment).length = assignment.hats.length :=
  List.length_map ..

/-- The mark of a clean outcome is the number of no hat. -/
theorem noGuess_not_mem_hatNumbers (assignment : Assignment) :
    noGuess ∉ hatNumbers assignment := by
  intro h
  obtain ⟨hat, -, hhat⟩ := List.mem_map.1 h
  have hneg : noGuess < 0 := by decide
  omega

theorem hatNumbers_injective : Function.Injective hatNumbers := by
  have hinj : Function.Injective fun hat : Hat => (hat.toNat : Int) := fun one another h =>
    UInt8.toNat_inj.1 (Int.ofNat.inj h)
  intro one another h
  exact congrArg Assignment.mk (List.map_injective_iff.2 hinj h)

/-! ### Writing and reading -/

/-- The wire form tells the two verdicts apart and determines the hats. -/
theorem toWire_injective : Function.Injective toWire := by
  have hmark : ∀ one another, hatNumbers one ≠ hatNumbers another ++ [noGuess] := by
    intro one another h
    exact noGuess_not_mem_hatNumbers one (h ▸ List.mem_append_right _ (List.mem_singleton_self _))
  intro one another h
  cases one with
  | counterexample one =>
      cases another with
      | counterexample another => rw [hatNumbers_injective h]
      | noCounterexampleFound another => exact absurd h (hmark one another)
  | noCounterexampleFound one =>
      cases another with
      | counterexample another => exact absurd h.symm (hmark another one)
      | noCounterexampleFound another => rw [hatNumbers_injective (List.append_cancel_right h)]

section Reading

variable {puzzle : Puzzle} {wire : List Int} {outcome : Outcome}

theorem ofWire_of_counterexample {assignment : Assignment} (h : Fits puzzle assignment.hats) :
    ofWire puzzle (toWire (.counterexample assignment)) = .ok (.counterexample assignment) := by
  have hlength : (hatNumbers assignment).length = puzzle.personCount :=
    (length_hatNumbers assignment).trans h.1
  rw [toWire, ofWire, if_pos hlength, readAssignment_eq_ok_iff.2 ⟨h, rfl⟩]
  rfl

theorem ofWire_of_noCounterexampleFound {assignment : Assignment}
    (h : Fits puzzle assignment.hats) :
    ofWire puzzle (toWire (.noCounterexampleFound assignment)) =
      .ok (.noCounterexampleFound assignment) := by
  have hlength : (hatNumbers assignment).length = puzzle.personCount :=
    (length_hatNumbers assignment).trans h.1
  have htotal : (hatNumbers assignment ++ [noGuess]).length = puzzle.personCount + 1 := by
    rw [List.length_append, hlength, List.length_singleton]
  have hmark : (hatNumbers assignment ++ [noGuess])[puzzle.personCount]? = some noGuess := by
    rw [← hlength, List.getElem?_concat_length]
  have hnumbers : (hatNumbers assignment ++ [noGuess]).take puzzle.personCount =
      hatNumbers assignment := by
    rw [← hlength, List.take_left]
  simp only [toWire, ofWire, hnumbers]
  rw [if_neg (by omega), if_pos ⟨htotal, hmark⟩, readAssignment_eq_ok_iff.2 ⟨h, rfl⟩]
  rfl

/-- What is read is what was written, and belongs to the puzzle. -/
theorem ofWire_eq_ok_iff : ofWire puzzle wire = .ok outcome ↔
    Fits puzzle outcome.assignment.hats ∧ outcome.toWire = wire := by
  constructor
  · intro h
    unfold ofWire at h
    simp only at h
    split at h
    · obtain ⟨assignment, hread, rfl⟩ := (map_eq_ok_iff ..).1 h
      obtain ⟨hfits, hnumbers⟩ := readAssignment_eq_ok_iff.1 hread
      exact ⟨hfits, hnumbers.symm⟩
    · split at h
      · rename_i hmarked
        obtain ⟨hlength, hmark⟩ := hmarked
        obtain ⟨assignment, hread, rfl⟩ := (map_eq_ok_iff ..).1 h
        obtain ⟨hfits, hnumbers⟩ := readAssignment_eq_ok_iff.1 hread
        refine ⟨hfits, ?_⟩
        calc hatNumbers assignment ++ [noGuess]
            = wire.take (puzzle.personCount + 1) := by
              rw [List.take_add_one, hmark, hnumbers, Option.toList_some]
          _ = wire := by rw [← hlength, List.take_length]
      · cases h
  · rintro ⟨hfits, rfl⟩
    cases outcome with
    | counterexample assignment => exact ofWire_of_counterexample hfits
    | noCounterexampleFound assignment => exact ofWire_of_noCounterexampleFound hfits

/-- A list is read when it consists of hats of the puzzle, one for each person, and perhaps the
mark behind them. -/
theorem exists_ofWire_iff : (∃ outcome, ofWire puzzle wire = .ok outcome) ↔
    ∃ numbers : List Int, numbers.length = puzzle.personCount ∧
      (∀ number ∈ numbers, 0 ≤ number ∧ number < puzzle.base.toNat) ∧
      (wire = numbers ∨ wire = numbers ++ [noGuess]) := by
  simp only [ofWire_eq_ok_iff]
  constructor
  · rintro ⟨outcome, hfits, rfl⟩
    refine ⟨hatNumbers outcome.assignment, (length_hatNumbers _).trans hfits.1, ?_, ?_⟩
    · intro number hnumber
      obtain ⟨hat, hhat, rfl⟩ := List.mem_map.1 hnumber
      exact ⟨Int.natCast_nonneg _, Int.ofNat_lt.2 (hfits.toNat_lt hat hhat)⟩
    · cases outcome with
      | counterexample assignment => exact .inl rfl
      | noCounterexampleFound assignment => exact .inr rfl
  · rintro ⟨numbers, hlength, hrange, hwire⟩
    have hsize := puzzle.base.toNat_lt
    have hvalue : ∀ number ∈ numbers, ((UInt8.ofNat number.toNat).toNat : Int) = number := by
      intro number hnumber
      have hsmall := hrange number hnumber
      rw [UInt8.toNat_ofNat_of_lt' (show number.toNat < 256 by omega)]
      exact Int.toNat_of_nonneg hsmall.1
    let assignment : Assignment := ⟨numbers.map fun number => UInt8.ofNat number.toNat⟩
    have hnumbers : hatNumbers assignment = numbers := by
      rw [hatNumbers, List.map_map]
      exact (List.map_congr_left hvalue).trans (List.map_id numbers)
    have hfits : Fits puzzle assignment.hats := by
      refine ⟨(List.length_map ..).trans hlength, fun hat hhat => ?_⟩
      obtain ⟨number, hnumber, rfl⟩ := List.mem_map.1 hhat
      have hsmall := (hrange number hnumber).2
      rw [← hvalue number hnumber, Int.ofNat_lt] at hsmall
      exact UInt8.lt_iff_toNat_lt.2 hsmall
    rcases hwire with rfl | rfl
    · exact ⟨.counterexample assignment, hfits, hnumbers⟩
    · exact ⟨.noCounterexampleFound assignment, hfits, congrArg (· ++ [noGuess]) hnumbers⟩

end Reading

end Outcome

/-! ### Outcomes of searches -/

/-- What an exhaustive search reports belongs to the puzzle, whatever the verdict is. -/
theorem Formula.fits_exhaustive {formula : Formula} (hbase : 1 ≤ formula.puzzle.base.toNat) :
    Fits formula.puzzle formula.exhaustive.outcome.assignment.hats := by
  rcases formula.exhaustive_cases with ⟨first, -, -, -, hreport⟩ | ⟨-, hreport⟩
  · rw [hreport]
    exact fits_ofIndex hbase first
  · rw [hreport, Outcome.assignment]
    split
    · exact fits_ofIndex hbase _
    · exact fits_ofIndex hbase _

namespace Outcome

/-- Writing and reading outcomes are inverse to each other. What is read is a list of one hat
of the puzzle for each person, or such a list with the mark behind it; everything else is
refused as a fault of the wire form. What the searches find can be read, and a list that can be
read for two puzzles is the same outcome for both. -/
theorem wire_exact (puzzle : Puzzle) :
    (∀ outcome : Outcome, ofHats puzzle outcome.assignment.hats = .ok outcome.assignment →
      ofWire puzzle outcome.toWire = .ok outcome) ∧
    (∀ wire outcome, ofWire puzzle wire = .ok outcome → outcome.toWire = wire) ∧
    (∀ wire, (∃ outcome, ofWire puzzle wire = .ok outcome) ↔
      ∃ numbers : List Int, numbers.length = puzzle.personCount ∧
        (∀ number ∈ numbers, 0 ≤ number ∧ number < puzzle.base.toNat) ∧
        (wire = numbers ∨ wire = numbers ++ [-1])) ∧
    (∀ wire error, ofWire puzzle wire = .error error → error.toError.family = .wire) ∧
    (1 ≤ puzzle.base.toNat → ∀ formula : Formula, formula.puzzle = puzzle →
      ofWire puzzle formula.exhaustive.outcome.toWire = .ok formula.exhaustive.outcome ∧
      ∀ {σ : Type} [WordSource σ] (bounds : Bounds) (cap : Option Nat) (clock : Nat → Bool)
        (source rest : σ) (report : Report),
        formula.randomized bounds cap clock source = some (report, rest) →
          ofWire puzzle report.outcome.toWire = .ok report.outcome) ∧
    ∀ other wire outcome outcome', ofWire puzzle wire = .ok outcome →
      ofWire other wire = .ok outcome' → outcome = outcome' := by
  refine ⟨?_, ?_, ?_, ?_, ?_, ?_⟩
  · intro outcome h
    exact ofWire_eq_ok_iff.2 ⟨(ofHats_eq_ok_iff.1 h).1, rfl⟩
  · intro wire outcome h
    exact (ofWire_eq_ok_iff.1 h).2
  · intro wire
    exact exists_ofWire_iff
  · intro wire error _
    cases error with
    | shape length personCount => rfl
    | value number => rfl
    | assignment error => rfl
  · rintro hbase formula rfl
    refine ⟨ofWire_eq_ok_iff.2 ⟨Formula.fits_exhaustive hbase, rfl⟩, ?_⟩
    intro σ _ bounds cap clock source rest report h
    exact ofWire_eq_ok_iff.2 ⟨Formula.fits_of_randomizedFrom hbase h, rfl⟩
  · intro other wire outcome outcome' h h'
    exact toWire_injective ((ofWire_eq_ok_iff.1 h).2.trans (ofWire_eq_ok_iff.1 h').2.symm)

/-- Two people with the hats 0 and 1, with two colours and with three. The outcomes of both
searches for the guess of the other hat can be read, and a third colour is refused. -/
theorem wire_two :
    ofWire .two [0, 1, -1] = .ok (.noCounterexampleFound ⟨[0, 1]⟩) ∧
      toWire (.counterexample ⟨[0, 1]⟩) = [0, 1] ∧
      (∃ error, ofWire .two [0, 2] = .error error ∧ error.toError.family = .wire) ∧
      ofWire .two Formula.other.exhaustive.outcome.toWire =
        .ok Formula.other.exhaustive.outcome ∧
      (∃ report, (Formula.other.randomized ⟨1, 1⟩ none (fun _ => true)
          (fun _ => 0 : Nat → UInt32)).map Prod.fst = some report ∧
        ofWire .two report.outcome.toWire = .ok report.outcome) ∧
      ∃ outcome, ofWire .two [0, 1] = .ok outcome ∧
        ofWire { Puzzle.two with base := 3 } [0, 1] = .ok outcome := by
  obtain ⟨hread, hwrite, -, herror, hsearch, hother⟩ := wire_exact .two
  obtain ⟨hexhaustive, hrandomized⟩ := hsearch (by decide) Formula.other rfl
  have hvalid : ofHats .two [0, 1] = .ok ⟨[0, 1]⟩ := rfl
  have hthree : ofWire { Puzzle.two with base := 3 } [0, 1] = .ok (.counterexample ⟨[0, 1]⟩) := rfl
  refine ⟨hread (.noCounterexampleFound ⟨[0, 1]⟩) hvalid, hwrite _ (.counterexample ⟨[0, 1]⟩) rfl,
    ⟨_, rfl, herror [0, 2] _ rfl⟩, hexhaustive, ⟨_, rfl, ?_⟩, ?_⟩
  · exact hrandomized ⟨1, 1⟩ none (fun _ => true) (fun _ => 0 : Nat → UInt32) (fun _ => 0) _ rfl
  · obtain ⟨outcome, htwo⟩ : ∃ outcome, ofWire .two [0, 1] = .ok outcome := ⟨_, rfl⟩
    exact ⟨outcome, htwo, by rw [hother _ _ _ _ htwo hthree, hthree]⟩

end Outcome

end HatCircle
