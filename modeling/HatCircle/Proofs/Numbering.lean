import Mathlib.Data.Set.Card
import Mathlib.Tactic.Ring
import HatCircle.Assignment.Basic

/-!
# Assignments in order

The hats of an assignment are the digits of a number, the first person having the most
significant one (`number`). Numbers compare as the lists of hats do, letter by letter, so
counting through the numbers meets the assignments in lexicographic order, and none twice.

`Assignment.ofIndex` goes the other way. It gives an assignment of the puzzle for every
index, the one whose number is what the index leaves when divided by the number of all
assignments (`number_ofIndex`), and thus it meets every assignment (`ofIndex_number`).
-/

namespace HatCircle.Assignment

/-- The number of some hats. -/
def number (base : Nat) : List Hat → Nat
  | [] => 0
  | hat :: rest => hat.toNat * base ^ rest.length + number base rest

/-! ### Numbers compare like lists -/

/-- What counts is the more significant place; below it is less than one of its units. -/
theorem place_lt_iff {unit x y a b : Nat} (ha : a < unit) (hb : b < unit) :
    x * unit + a < y * unit + b ↔ x < y ∨ x = y ∧ a < b := by
  rcases Nat.lt_trichotomy x y with h | rfl | h
  · have hle : (x + 1) * unit ≤ y * unit := Nat.mul_le_mul_right unit h
    rw [Nat.succ_mul] at hle
    constructor
    · intro _
      exact .inl h
    · intro _
      omega
  · constructor
    · intro hlt
      exact .inr ⟨rfl, by omega⟩
    · rintro (hlt | ⟨-, hlt⟩)
      · omega
      · omega
  · have hle : (y + 1) * unit ≤ x * unit := Nat.mul_le_mul_right unit h
    rw [Nat.succ_mul] at hle
    constructor
    · intro hlt
      omega
    · rintro (hlt | ⟨heq, -⟩)
      · omega
      · omega

section Order

variable {base : Nat} {a b hats : List Hat}

theorem number_lt (h : ∀ hat ∈ hats, hat.toNat < base) :
    number base hats < base ^ hats.length := by
  induction hats with
  | nil => simp [number]
  | cons hat rest ih =>
      have hrest := ih fun other hother => h other (by simp [hother])
      have hle : (hat.toNat + 1) * base ^ rest.length ≤ base * base ^ rest.length :=
        Nat.mul_le_mul_right _ (h hat (by simp))
      rw [Nat.succ_mul] at hle
      rw [number, List.length_cons, Nat.pow_succ, Nat.mul_comm (base ^ rest.length)]
      omega

theorem number_lt_number_iff (hlength : a.length = b.length) (ha : ∀ hat ∈ a, hat.toNat < base)
    (hb : ∀ hat ∈ b, hat.toNat < base) : number base a < number base b ↔ a < b := by
  induction a generalizing b with
  | nil =>
      obtain rfl := List.length_eq_zero_iff.1 hlength.symm
      simp
  | cons x a ih =>
      cases b with
      | nil => cases hlength
      | cons y b =>
          have hlength' : a.length = b.length := Nat.succ.inj hlength
          have ha' : ∀ hat ∈ a, hat.toNat < base := fun hat h => ha hat (by simp [h])
          have hb' : ∀ hat ∈ b, hat.toNat < base := fun hat h => hb hat (by simp [h])
          have hlow := number_lt ha'
          rw [hlength'] at hlow
          rw [number, number, hlength', place_lt_iff hlow (number_lt hb'), ih hlength' ha' hb',
            List.cons_lt_cons_iff, UInt8.lt_iff_toNat_lt, UInt8.toNat_inj]

theorem number_inj (hlength : a.length = b.length) (ha : ∀ hat ∈ a, hat.toNat < base)
    (hb : ∀ hat ∈ b, hat.toNat < base) (h : number base a = number base b) : a = b := by
  have hab : ¬ a < b := by
    rw [← number_lt_number_iff hlength ha hb]
    omega
  have hba : ¬ b < a := by
    rw [← number_lt_number_iff hlength.symm hb ha]
    omega
  exact List.le_antisymm hba hab

theorem number_replicate (count : Nat) {hat : Hat} (h : hat.toNat + 1 = base) :
    number base (List.replicate count hat) + 1 = base ^ count := by
  induction count with
  | zero => rfl
  | succ count ih =>
      rw [List.replicate_succ, number, List.length_replicate, Nat.add_assoc, ih,
        ← Nat.succ_mul, Nat.succ_eq_add_one, h, Nat.pow_succ, Nat.mul_comm]

end Order

/-! ### Digits of an index -/

section Places

variable {base : Nat} {following : List Hat}

theorem length_placesBefore (count index : Nat) :
    (placesBefore base following count index).length = count + following.length := by
  induction count generalizing following index with
  | zero => simp [placesBefore]
  | succ count ih =>
      rw [placesBefore, ih, List.length_cons]
      omega

theorem toNat_digit (hpos : 0 < base) (hsize : base ≤ 256) (index : Nat) :
    (UInt8.ofNat (index % base)).toNat = index % base := by
  have hlt := Nat.mod_lt index hpos
  exact UInt8.toNat_ofNat_of_lt' (Nat.lt_of_lt_of_le hlt hsize)

theorem lt_of_mem_placesBefore (hpos : 0 < base) (hsize : base ≤ 256)
    (h : ∀ hat ∈ following, hat.toNat < base) (count index : Nat) :
    ∀ hat ∈ placesBefore base following count index, hat.toNat < base := by
  induction count generalizing following index with
  | zero => exact h
  | succ count ih =>
      refine ih ?_ (index / base)
      intro hat hmem
      rcases List.mem_cons.1 hmem with rfl | hmem
      · rw [toNat_digit hpos hsize]
        exact Nat.mod_lt index hpos
      · exact h hat hmem

theorem number_placesBefore (hpos : 0 < base) (hsize : base ≤ 256) (count index : Nat) :
    number base (placesBefore base following count index) =
      index % base ^ count * base ^ following.length + number base following := by
  induction count generalizing following index with
  | zero => simp [placesBefore, Nat.mod_one]
  | succ count ih =>
      have hmod : index % base ^ (count + 1) =
          index % base + base * (index / base % base ^ count) := by
        rw [Nat.pow_succ, Nat.mul_comm, Nat.mod_mul]
      rw [placesBefore, ih, number, toNat_digit hpos hsize, List.length_cons, hmod]
      ring

end Places

/-! ### Assignments of a puzzle -/

section Puzzle

variable {puzzle : Puzzle} {hats : List Hat}

theorem Fits.toNat_lt (h : Fits puzzle hats) : ∀ hat ∈ hats, hat.toNat < puzzle.base.toNat :=
  fun hat hmem => UInt8.lt_iff_toNat_lt.1 (h.2 hat hmem)

theorem Fits.number_lt (h : Fits puzzle hats) :
    number puzzle.base.toNat hats < puzzle.base.toNat ^ puzzle.personCount := by
  rw [← h.1]
  exact Assignment.number_lt h.toNat_lt

variable (hbase : 1 ≤ puzzle.base.toNat)
include hbase

/-- Every index gives an assignment of the puzzle. -/
theorem fits_ofIndex (index : Nat) : Fits puzzle (ofIndex puzzle index).hats := by
  have hsize := puzzle.base.toNat_lt
  constructor
  · exact length_placesBefore ..
  · intro hat hmem
    rw [UInt8.lt_iff_toNat_lt]
    exact lt_of_mem_placesBefore hbase (by omega) (by simp) _ index hat hmem

/-- The indices count the assignments, and start again behind the last one. -/
theorem number_ofIndex (index : Nat) :
    number puzzle.base.toNat (ofIndex puzzle index).hats =
      index % puzzle.base.toNat ^ puzzle.personCount := by
  have hsize := puzzle.base.toNat_lt
  rw [ofIndex, number_placesBefore hbase (by omega)]
  simp [number]

/-- Each assignment has the index that is its number. -/
theorem ofIndex_number (h : Fits puzzle hats) :
    ofIndex puzzle (number puzzle.base.toNat hats) = ⟨hats⟩ := by
  have hfits := fits_ofIndex hbase (number puzzle.base.toNat hats)
  have hnumber := number_ofIndex hbase (number puzzle.base.toNat hats)
  rw [Nat.mod_eq_of_lt h.number_lt] at hnumber
  exact congrArg mk (number_inj (hfits.1.trans h.1.symm) hfits.toNat_lt h.toNat_lt hnumber)

/-- What holds up to an index holds of the assignments whose numbers come before it. -/
theorem forall_ofIndex_iff (p : List Hat → Prop) (limit : Nat) :
    (∀ index < limit, p (ofIndex puzzle index).hats) ↔
      ∀ hats, Fits puzzle hats → number puzzle.base.toNat hats < limit → p hats := by
  constructor
  · intro h hats hfits hlt
    have := h _ hlt
    rwa [ofIndex_number hbase hfits] at this
  · intro h index hindex
    refine h _ (fits_ofIndex hbase index) ?_
    rw [number_ofIndex hbase]
    exact Nat.lt_of_le_of_lt (Nat.mod_le ..) hindex

/-- The assignments whose numbers are below a limit are as many as the limit says. -/
theorem ncard_number_lt {limit : Nat} (h : limit ≤ puzzle.base.toNat ^ puzzle.personCount) :
    {other | Fits puzzle other ∧ number puzzle.base.toNat other < limit}.ncard = limit := by
  have hindices : ∀ index < limit,
      number puzzle.base.toNat (ofIndex puzzle index).hats = index := by
    intro index hindex
    rw [number_ofIndex hbase, Nat.mod_eq_of_lt (hindex.trans_le h)]
  have himage : {other | Fits puzzle other ∧ number puzzle.base.toNat other < limit} =
      (fun index => (ofIndex puzzle index).hats) '' (Finset.range limit : Set Nat) := by
    ext other
    simp only [Set.mem_ofPred_eq, Set.mem_image, Finset.coe_range, Set.mem_Iio]
    constructor
    · rintro ⟨hother, hlt⟩
      exact ⟨number puzzle.base.toNat other, hlt, by rw [ofIndex_number hbase hother]⟩
    · rintro ⟨index, hindex, rfl⟩
      exact ⟨fits_ofIndex hbase index, by rwa [hindices index hindex]⟩
  have hinj : Set.InjOn (fun index => (ofIndex puzzle index).hats)
      (Finset.range limit : Set Nat) := by
    intro i hi j hj hij
    simp only [Finset.coe_range, Set.mem_Iio] at hi hj
    rw [← hindices i hi, ← hindices j hj]
    exact congrArg (number puzzle.base.toNat) hij
  rw [himage, hinj.ncard_image, Set.ncard_coe_finset, Finset.card_range]

/-- As many assignments come before one as its number says. -/
theorem ncard_before (h : Fits puzzle hats) :
    {other | Fits puzzle other ∧ other < hats}.ncard = number puzzle.base.toNat hats := by
  rw [← ncard_number_lt hbase h.number_lt.le]
  congr 1
  ext other
  constructor
  · rintro ⟨hother, hlt⟩
    exact ⟨hother, (number_lt_number_iff (hother.1.trans h.1.symm) hother.toNat_lt
      h.toNat_lt).2 hlt⟩
  · rintro ⟨hother, hlt⟩
    exact ⟨hother, (number_lt_number_iff (hother.1.trans h.1.symm) hother.toNat_lt
      h.toNat_lt).1 hlt⟩

/-- The number of all assignments. -/
theorem ncard_fits :
    {hats | Fits puzzle hats}.ncard = puzzle.base.toNat ^ puzzle.personCount := by
  rw [← ncard_number_lt hbase (Nat.le_refl _)]
  congr 1
  ext hats
  exact ⟨fun h => ⟨h, Fits.number_lt h⟩, fun h => h.1⟩

theorem finite_fits : {hats | Fits puzzle hats}.Finite := by
  apply Set.finite_of_ncard_pos
  rw [ncard_fits hbase]
  exact Nat.pow_pos hbase

theorem card_fits :
    (finite_fits hbase).toFinset.card = puzzle.base.toNat ^ puzzle.personCount := by
  rw [← ncard_fits hbase, Set.ncard_eq_toFinset_card _ (finite_fits hbase)]

theorem toNat_greatest : (puzzle.base - 1).toNat + 1 = puzzle.base.toNat := by
  have hle : (1 : UInt8) ≤ puzzle.base := UInt8.le_iff_toNat_le.2 hbase
  rw [UInt8.toNat_sub_of_le _ _ hle]
  simp only [UInt8.toNat_one]
  omega

/-- The assignment in which every hat has the greatest colour. -/
theorem fits_last : Fits puzzle (List.replicate puzzle.personCount (puzzle.base - 1)) := by
  refine ⟨List.length_replicate, fun hat hmem => ?_⟩
  have hgreatest := toNat_greatest hbase
  rw [List.eq_of_mem_replicate hmem, UInt8.lt_iff_toNat_lt]
  omega

theorem number_last :
    number puzzle.base.toNat (List.replicate puzzle.personCount (puzzle.base - 1)) + 1 =
      puzzle.base.toNat ^ puzzle.personCount :=
  number_replicate puzzle.personCount (toNat_greatest hbase)

/-- It is the last one in lexicographic order. -/
theorem not_last_lt (h : Fits puzzle hats) :
    ¬ List.replicate puzzle.personCount (puzzle.base - 1) < hats := by
  have hlast := fits_last hbase
  have hnumber := number_last hbase
  have hlt := h.number_lt
  rw [← number_lt_number_iff (hlast.1.trans h.1.symm) hlast.toNat_lt h.toNat_lt]
  omega

theorem ofIndex_last :
    ofIndex puzzle (puzzle.base.toNat ^ puzzle.personCount - 1) =
      ⟨List.replicate puzzle.personCount (puzzle.base - 1)⟩ := by
  rw [← ofIndex_number hbase (fits_last hbase), ← number_last hbase, Nat.add_sub_cancel]

end Puzzle

end HatCircle.Assignment
