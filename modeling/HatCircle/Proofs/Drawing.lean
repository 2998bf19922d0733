import Mathlib.Order.Basic
import HatCircle.Random.Source

/-!
# What a draw ends with

A draw tries words until one counts, and the number of words that it may try is an argument.
`DrawsHat` says without that argument which hat a draw ends with and where it leaves the
source; `Draws` says it of a draw for each person of a puzzle. A draw that may try enough words
ends in this way (`Draws.exists_attempts`), and no draw ends otherwise
(`Draws.drawAssignment_eq`).

An assignment that is drawn belongs to the puzzle (`Draws.fits`). Nothing that belongs to the
puzzle is out of reach: for every colour there is a word that draws it, so every assignment is
drawn from some sequence of words (`exists_draws`).

That a draw ends depends on the words. It does for every source if no word is passed over, as
with two colours (`exists_draws_of_dvd`).
-/

namespace HatCircle.WordSource

/-! ### Draws without a limit -/

section Draws

variable {σ : Type} [WordSource σ]

/-- A draw passes over the words that do not count and takes the first one that does. -/
inductive DrawsHat (base : Nat) : σ → Hat → σ → Prop where
  | take {source : σ} {hat : Hat} (counts : pick? base (next source).1 = some hat) :
      DrawsHat base source hat (next source).2
  | pass {source rest : σ} {hat : Hat} (skipped : pick? base (next source).1 = none)
      (later : DrawsHat base (next source).2 hat rest) : DrawsHat base source hat rest

/-- Hats are drawn one after the other, each where the one before has left the source. -/
inductive DrawsHats (base : Nat) : σ → List Hat → σ → Prop where
  | nil {source : σ} : DrawsHats base source [] source
  | cons {source middle rest : σ} {hat : Hat} {hats : List Hat}
      (first : DrawsHat base source hat middle) (others : DrawsHats base middle hats rest) :
      DrawsHats base source (hat :: hats) rest

/-- A draw of an assignment: a hat for each person of the puzzle. -/
structure Draws (puzzle : Puzzle) (source : σ) (assignment : Assignment) (rest : σ) : Prop where
  count : assignment.hats.length = puzzle.personCount
  hats : DrawsHats puzzle.base.toNat source assignment.hats rest

variable {base : Nat} {source rest : σ} {hat : Hat}

theorem drawHat_of_some {attempts : Nat} (h : pick? base (next source).1 = some hat) :
    drawHat base (attempts + 1) source = some (hat, (next source).2) := by
  simp only [drawHat, h]

theorem drawHat_of_none {attempts : Nat} (h : pick? base (next source).1 = none) :
    drawHat base (attempts + 1) source = drawHat base attempts (next source).2 := by
  simp only [drawHat, h]

theorem drawsHat_of_drawHat {attempts : Nat} (h : drawHat base attempts source = some (hat, rest)) :
    DrawsHat base source hat rest := by
  induction attempts generalizing source with
  | zero => cases h
  | succ attempts ih =>
      cases hpick : pick? base (next source).1 with
      | none =>
          rw [drawHat_of_none hpick] at h
          exact .pass hpick (ih h)
      | some found =>
          rw [drawHat_of_some hpick] at h
          cases h
          exact .take hpick

theorem DrawsHat.exists_attempts (h : DrawsHat base source hat rest) :
    ∃ least, ∀ attempts, least ≤ attempts → drawHat base attempts source = some (hat, rest) := by
  induction h with
  | take counts =>
      refine ⟨1, fun attempts hle => ?_⟩
      obtain ⟨attempts, rfl⟩ := Nat.exists_eq_add_of_le' hle
      exact drawHat_of_some counts
  | pass skipped _ ih =>
      obtain ⟨least, hleast⟩ := ih
      refine ⟨least + 1, fun attempts hle => ?_⟩
      obtain ⟨more, rfl⟩ := Nat.exists_eq_add_of_le' hle
      rw [← Nat.add_assoc, drawHat_of_none skipped]
      exact hleast _ (Nat.le_add_left ..)

theorem drawsHats_of_drawHats {attempts count : Nat} {hats : List Hat}
    (h : drawHats attempts base count source = some (hats, rest)) :
    hats.length = count ∧ DrawsHats base source hats rest := by
  induction count generalizing source hats with
  | zero =>
      cases h
      exact ⟨rfl, .nil⟩
  | succ count ih =>
      obtain ⟨⟨hat, middle⟩, hfirst, h⟩ := Option.bind_eq_some_iff.1 h
      obtain ⟨⟨others, last⟩, hothers, h⟩ := Option.bind_eq_some_iff.1 h
      cases h
      obtain ⟨hlength, hdraws⟩ := ih hothers
      exact ⟨by rw [List.length_cons, hlength], .cons (drawsHat_of_drawHat hfirst) hdraws⟩

theorem DrawsHats.exists_attempts {hats : List Hat} (h : DrawsHats base source hats rest) :
    ∃ least, ∀ attempts, least ≤ attempts →
      drawHats attempts base hats.length source = some (hats, rest) := by
  induction h with
  | nil => exact ⟨0, fun _ _ => rfl⟩
  | cons first _ ih =>
      obtain ⟨least, hleast⟩ := first.exists_attempts
      obtain ⟨least', hleast'⟩ := ih
      refine ⟨max least least', fun attempts hle => ?_⟩
      have hfirst := hleast attempts (by omega)
      have hothers := hleast' attempts (by omega)
      simp only [List.length_cons, drawHats, hfirst, hothers, Option.bind_eq_bind,
        Option.bind_some, Option.pure_def]

end Draws

/-! ### Draws of assignments -/

section Assignments

variable {σ : Type} [WordSource σ] {puzzle : Puzzle} {source rest : σ} {assignment : Assignment}

theorem draws_of_drawAssignment {attempts : Nat}
    (h : drawAssignment attempts puzzle source = some (assignment, rest)) :
    Draws puzzle source assignment rest := by
  obtain ⟨⟨hats, last⟩, hhats, heq⟩ := Option.map_eq_some_iff.1 h
  cases heq
  obtain ⟨hcount, hdraws⟩ := drawsHats_of_drawHats hhats
  exact ⟨hcount, hdraws⟩

/-- A draw that may try enough words ends. -/
theorem Draws.exists_attempts (h : Draws puzzle source assignment rest) :
    ∃ least, ∀ attempts, least ≤ attempts →
      drawAssignment attempts puzzle source = some (assignment, rest) := by
  obtain ⟨least, hleast⟩ := h.hats.exists_attempts
  refine ⟨least, fun attempts hle => ?_⟩
  rw [drawAssignment, ← h.count, hleast attempts hle]
  rfl

/-- However many words a draw may try, if it ends, it ends in the one possible way. -/
theorem Draws.drawAssignment_eq (h : Draws puzzle source assignment rest) {attempts : Nat}
    {result : Assignment × σ} (hresult : drawAssignment attempts puzzle source = some result) :
    result = (assignment, rest) := by
  obtain ⟨least, hleast⟩ := h.exists_attempts
  obtain ⟨least', hleast'⟩ := (draws_of_drawAssignment hresult).exists_attempts
  have heq := (hleast' (max least least') (by omega)).symm.trans
    (hleast (max least least') (by omega))
  exact Option.some.inj heq

end Assignments

/-! ### What words draw -/

section Words

variable {base : Nat} {hat : Hat}

theorem pick?_lt (hbase : 1 ≤ base) (hsize : base ≤ 256) {word : UInt32}
    (h : pick? base word = some hat) : hat.toNat < base := by
  simp only [pick?] at h
  split at h
  · obtain rfl := Option.some.inj h
    have hlt : word.toNat * base / UInt32.size < base := by
      rw [Nat.div_lt_iff_lt_mul (by decide), Nat.mul_comm base]
      exact Nat.mul_lt_mul_of_pos_right word.toNat_lt_size hbase
    rwa [UInt8.toNat_ofNat_of_lt' (Nat.lt_of_lt_of_le hlt hsize)]
  · cases h

theorem DrawsHat.lt {σ : Type} [WordSource σ] {source rest : σ} (hbase : 1 ≤ base)
    (hsize : base ≤ 256) (h : DrawsHat base source hat rest) : hat.toNat < base := by
  induction h with
  | take counts => exact pick?_lt hbase hsize counts
  | pass _ _ ih => exact ih

theorem DrawsHats.lt {σ : Type} [WordSource σ] {source rest : σ} {hats : List Hat}
    (hbase : 1 ≤ base) (hsize : base ≤ 256) (h : DrawsHats base source hats rest) :
    ∀ hat ∈ hats, hat.toNat < base := by
  induction h with
  | nil => simp
  | cons first _ ih =>
      intro hat hmem
      rcases List.mem_cons.1 hmem with rfl | hmem
      · exact first.lt hbase hsize
      · exact ih hat hmem

/-- What is drawn is an assignment of the puzzle. -/
theorem Draws.fits {σ : Type} [WordSource σ] {puzzle : Puzzle} {source rest : σ}
    {assignment : Assignment} (hbase : 1 ≤ puzzle.base.toNat)
    (h : Draws puzzle source assignment rest) : Assignment.Fits puzzle assignment.hats := by
  have hsize := puzzle.base.toNat_lt
  refine ⟨h.count, fun hat hmem => ?_⟩
  rw [UInt8.lt_iff_toNat_lt]
  exact h.hats.lt hbase (by omega) hat hmem

/-- The multiples of a number are nowhere further apart than the number. -/
theorem exists_multiple (unit : Nat) {place : Nat} (hplace : place < base) (hunit : base ≤ unit) :
    ∃ word < unit, ∃ excess < base, word * base = place * unit + excess := by
  have hbase : 0 < base := Nat.zero_lt_of_lt hplace
  -- the first multiple that is not below `place * unit`
  have hdivision := Nat.div_add_mod (place * unit + (base - 1)) base
  have hremainder := Nat.mod_lt (place * unit + (base - 1)) hbase
  have hproduct : (place * unit + (base - 1)) / base * base =
      place * unit + (base - 1 - (place * unit + (base - 1)) % base) := by
    rw [Nat.mul_comm]
    omega
  refine ⟨_, ?_, _, by omega, hproduct⟩
  have hle : (place + 1) * unit ≤ base * unit := Nat.mul_le_mul_right unit hplace
  rw [Nat.succ_mul] at hle
  refine Nat.lt_of_mul_lt_mul_right (a := base) ?_
  rw [hproduct, Nat.mul_comm unit]
  omega

/-- For every colour there is a word that draws it: the product of the word with the number of
colours goes beyond the colour by less than a colour is worth, and such words count. -/
theorem exists_pick (hsize : base ≤ 256) (hhat : hat.toNat < base) :
    ∃ word, pick? base word = some hat := by
  have hunit : UInt32.size = 4294967296 := rfl
  obtain ⟨word, hword, excess, hexcess, hproduct⟩ :=
    exists_multiple UInt32.size hhat (by omega)
  have hzone : UInt32.size - base ≤ zone base := by
    have hbias := Nat.mod_lt (UInt32.size - base) (Nat.zero_lt_of_lt hhat)
    unfold zone
    omega
  refine ⟨UInt32.ofNat word, ?_⟩
  have hlower : (hat.toNat * UInt32.size + excess) % UInt32.size = excess := by
    rw [Nat.mul_add_mod', Nat.mod_eq_of_lt (by omega)]
  have hupper : (hat.toNat * UInt32.size + excess) / UInt32.size = hat.toNat := by
    rw [Nat.mul_comm, Nat.mul_add_div (by omega), Nat.div_eq_of_lt (by omega), Nat.add_zero]
  simp only [pick?, UInt32.toNat_ofNat_of_lt' hword, hproduct, hlower, hupper,
    UInt8.ofNat_toNat]
  rw [if_pos (by omega)]

theorem exists_drawsHats (hsize : base ≤ 256) {hats : List Hat}
    (h : ∀ hat ∈ hats, hat.toNat < base) (rest : Nat → UInt32) :
    ∃ words : Nat → UInt32, DrawsHats base words hats rest := by
  induction hats with
  | nil => exact ⟨rest, .nil⟩
  | cons hat hats ih =>
      obtain ⟨word, hword⟩ := exists_pick hsize (h hat (by simp))
      obtain ⟨words, hwords⟩ := ih fun other hother => h other (by simp [hother])
      let all : Nat → UInt32 := fun place => Nat.casesOn place word words
      have hfirst : DrawsHat base all hat (next all).2 := .take hword
      exact ⟨all, .cons hfirst hwords⟩

/-- Every assignment of the puzzle is drawn from some words, whatever comes after them. -/
theorem exists_draws {puzzle : Puzzle} {hats : List Hat}
    (h : Assignment.Fits puzzle hats) (rest : Nat → UInt32) :
    ∃ words : Nat → UInt32, Draws puzzle words ⟨hats⟩ rest := by
  have hsize := puzzle.base.toNat_lt
  obtain ⟨words, hwords⟩ := exists_drawsHats (by omega)
    (fun hat hmem => UInt8.lt_iff_toNat_lt.1 (h.2 hat hmem)) rest
  exact ⟨words, h.1, hwords⟩

end Words

/-! ### Draws that come to an end -/

section Divisor

variable {σ : Type} [WordSource σ] {base : Nat} (hdvd : base ∣ UInt32.size)
include hdvd

/-- Where the number of colours divides that of the words, no word is passed over. -/
theorem exists_pick_of_dvd (word : UInt32) : ∃ hat, pick? base word = some hat := by
  have hunit : UInt32.size = 4294967296 := rfl
  have hbias : (UInt32.size - base) % base = 0 :=
    Nat.mod_eq_zero_of_dvd (Nat.dvd_sub hdvd (Nat.dvd_refl base))
  have hlower : word.toNat * base % UInt32.size < UInt32.size := Nat.mod_lt _ (by omega)
  have hzone : word.toNat * base % UInt32.size ≤ zone base := by
    unfold zone
    omega
  exact ⟨_, by rw [pick?, if_pos hzone]⟩

theorem exists_drawsHats_of_dvd (source : σ) (count : Nat) :
    ∃ hats rest, hats.length = count ∧ DrawsHats base source hats rest := by
  induction count generalizing source with
  | zero => exact ⟨[], source, rfl, .nil⟩
  | succ count ih =>
      obtain ⟨hat, hhat⟩ := exists_pick_of_dvd hdvd (next source).1
      obtain ⟨hats, rest, rfl, hhats⟩ := ih (next source).2
      exact ⟨hat :: hats, rest, rfl, .cons (.take hhat) hhats⟩

end Divisor

/-- Then every source yields an assignment. -/
theorem exists_draws_of_dvd {σ : Type} [WordSource σ] {puzzle : Puzzle}
    (hdvd : puzzle.base.toNat ∣ UInt32.size) (source : σ) :
    ∃ assignment rest, Draws puzzle source assignment rest := by
  obtain ⟨hats, rest, hcount, hhats⟩ := exists_drawsHats_of_dvd hdvd source puzzle.personCount
  exact ⟨⟨hats⟩, rest, hcount, hhats⟩

end HatCircle.WordSource
