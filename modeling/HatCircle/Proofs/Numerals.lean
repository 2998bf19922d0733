import HatCircle.Proofs.Meaning

/-!
# Reading numerals

A reader of numerals takes one digit after the other and stops where the limit would be
passed. `Spells` says which texts spell a number: any number of digits, and perhaps a plus
sign in front of them. Leading zeros do not change the number. `read_eq_ok_iff` states that
the reader accepts the spellings of the numbers below its limit and nothing else. What is
written for a number is one of its spellings (`spells_render`), and is therefore read back.
-/

namespace HatCircle.Numeral

/-- The texts that spell a number. -/
inductive Spells : List Char → Nat → Prop where
  | plain {digits : List Char} (some : digits ≠ [])
      (decimal : ∀ c ∈ digits, c.isDigit = true) : Spells digits (value digits)
  | signed {digits : List Char} (some : digits ≠ [])
      (decimal : ∀ c ∈ digits, c.isDigit = true) : Spells ('+' :: digits) (value digits)

theorem spells_nil_iff {n : Nat} : Spells [] n ↔ False := by
  constructor
  · intro h
    generalize htext : ([] : List Char) = text at h
    cases h with
    | plain hsome => exact hsome htext.symm
    | signed => cases htext
  · exact False.elim

theorem spells_signed_iff {digits : List Char} {n : Nat} : Spells ('+' :: digits) n ↔
    digits ≠ [] ∧ (∀ c ∈ digits, c.isDigit = true) ∧ value digits = n := by
  constructor
  · intro h
    generalize htext : '+' :: digits = text at h
    cases h with
    | plain _ hdecimal =>
        have hsign : '+'.isDigit = true := hdecimal '+' (htext ▸ List.mem_cons_self ..)
        cases hsign
    | signed hsome hdecimal =>
        obtain ⟨-, rfl⟩ := List.cons.inj htext
        exact ⟨hsome, hdecimal, rfl⟩
  · rintro ⟨hsome, hdecimal, rfl⟩
    exact .signed hsome hdecimal

theorem spells_plain_iff {c : Char} {rest : List Char} {n : Nat} (hc : c ≠ '+') :
    Spells (c :: rest) n ↔ (∀ d ∈ c :: rest, d.isDigit = true) ∧ value (c :: rest) = n := by
  constructor
  · intro h
    generalize htext : c :: rest = text at h ⊢
    cases h with
    | plain _ hdecimal => exact ⟨hdecimal, rfl⟩
    | signed => exact absurd (List.cons.inj htext).1 hc
  · rintro ⟨hdecimal, rfl⟩
    exact .plain (List.cons_ne_nil c rest) hdecimal

theorem Spells.ne_nil {text : List Char} {n : Nat} (h : Spells text n) : text ≠ [] := by
  cases h with
  | plain hsome => exact hsome
  | signed => exact List.cons_ne_nil _ _

/-- A spelling consists of digits and signs. -/
theorem Spells.mem {text : List Char} {n : Nat} (h : Spells text n) {c : Char} (hc : c ∈ text) :
    c.isDigit = true ∨ c = '+' := by
  cases h with
  | plain _ hdecimal => exact .inl (hdecimal c hc)
  | signed _ hdecimal =>
      rcases List.mem_cons.1 hc with rfl | hc
      · exact .inr rfl
      · exact .inl (hdecimal c hc)

/-! ### The reader -/

theorem value_cons (c : Char) (digits : List Char) :
    value (c :: digits) = (c.toNat - '0'.toNat) * 10 ^ digits.length + value digits := by
  simp only [value, List.reverse_cons, List.map_append, List.map_cons, List.map_nil,
    Nat.ofDigits_append, Nat.ofDigits_singleton, List.length_map, List.length_reverse]
  ring

theorem readDigits_digit {c : Char} (hc : c.isDigit = true) (limit before : Nat)
    (rest : List Char) : readDigits limit before (c :: rest) =
      if before * 10 + (c.toNat - '0'.toNat) < limit then
        readDigits limit (before * 10 + (c.toNat - '0'.toNat)) rest
      else .error .tooLarge := by
  have hdigit : digit? c = some (c.toNat - '0'.toNat) := if_pos hc
  rw [readDigits, hdigit]

theorem readDigits_other {c : Char} (hc : ¬c.isDigit = true) (limit before : Nat)
    (rest : List Char) : readDigits limit before (c :: rest) = .error .invalidDigit := by
  have hdigit : digit? c = none := if_neg hc
  rw [readDigits, hdigit]

/-- What has been read stands in front of the digits that follow. -/
theorem readDigits_eq_ok_iff {limit before n : Nat} {digits : List Char} (h : before < limit) :
    readDigits limit before digits = .ok n ↔
      (∀ c ∈ digits, c.isDigit = true) ∧
        before * 10 ^ digits.length + value digits = n ∧ n < limit := by
  induction digits generalizing before with
  | nil =>
      simp only [readDigits, Except.ok.injEq, value, List.reverse_nil, List.map_nil,
        Nat.ofDigits_nil, List.length_nil, pow_zero, mul_one, add_zero, List.not_mem_nil,
        false_implies, implies_true, true_and]
      constructor
      · rintro rfl
        exact ⟨rfl, h⟩
      · exact And.left
  | cons c rest ih =>
      have hvalue : before * 10 ^ (c :: rest).length + value (c :: rest) =
          (before * 10 + (c.toNat - '0'.toNat)) * 10 ^ rest.length + value rest := by
        rw [value_cons, List.length_cons, pow_succ]
        ring
      rw [hvalue, List.forall_mem_cons]
      by_cases hc : c.isDigit = true
      · rw [readDigits_digit hc, and_iff_right hc]
        by_cases hbelow : before * 10 + (c.toNat - '0'.toNat) < limit
        · rw [if_pos hbelow]
          exact ih hbelow
        · rw [if_neg hbelow]
          constructor
          · intro hread
            cases hread
          · rintro ⟨-, rfl, hn⟩
            have hpow : 0 < 10 ^ rest.length := Nat.pow_pos (by decide)
            have hle := Nat.le_mul_of_pos_right (before * 10 + (c.toNat - '0'.toNat)) hpow
            omega
      · rw [readDigits_other hc]
        constructor
        · intro hread
          cases hread
        · rintro ⟨⟨hdigit, -⟩, -⟩
          exact absurd hdigit hc

/-- The reader accepts the spellings of the numbers below its limit. -/
theorem read_eq_ok_iff {limit n : Nat} {text : List Char} (hlimit : 0 < limit) :
    read limit text = .ok n ↔ Spells text n ∧ n < limit := by
  cases text with
  | nil =>
      rw [spells_nil_iff, false_and, iff_false]
      intro hread
      cases hread
  | cons c rest =>
      by_cases hc : c = '+'
      · subst hc
        rw [spells_signed_iff]
        cases rest with
        | nil =>
            simp only [ne_eq, not_true, false_and, iff_false]
            intro hread
            cases hread
        | cons d rest =>
            rw [show read limit ('+' :: d :: rest) = readDigits limit 0 (d :: rest) from rfl,
              readDigits_eq_ok_iff hlimit, zero_mul, zero_add]
            simp only [ne_eq, reduceCtorEq, not_false_iff, true_and, and_assoc]
      · have hread : read limit (c :: rest) = readDigits limit 0 (c :: rest) := by
          unfold read
          split
          · contradiction
          · rename_i heq
            exact absurd (List.cons.inj heq).1 hc
          · rename_i heq
            exact absurd (List.cons.inj heq).1 hc
          · rfl
        rw [hread, spells_plain_iff hc, readDigits_eq_ok_iff hlimit, zero_mul, zero_add, and_assoc]

/-! ### What is written -/

theorem digitChar_spec {d : Nat} (h : d < 10) :
    (Nat.digitChar d).isDigit = true ∧ (Nat.digitChar d).toNat - '0'.toNat = d := by
  revert d
  decide

theorem digits_ne_nil (n : Nat) : digits n ≠ [] := by
  rw [digits]
  split
  · exact List.cons_ne_nil _ _
  · exact List.append_ne_nil_of_right_ne_nil _ (List.cons_ne_nil _ _)

theorem isDigit_of_mem_digits {n : Nat} {c : Char} (h : c ∈ digits n) : c.isDigit = true := by
  induction n using digits.induct with
  | case1 n hn =>
      rw [digits, if_pos hn, List.mem_singleton] at h
      exact h ▸ (digitChar_spec hn).1
  | case2 n hn ih =>
      rw [digits, if_neg hn, List.mem_append, List.mem_singleton] at h
      rcases h with h | rfl
      · exact ih h
      · exact (digitChar_spec (Nat.mod_lt n (by decide))).1

theorem value_digits (n : Nat) : value (digits n) = n := by
  induction n using digits.induct with
  | case1 n hn =>
      rw [digits, if_pos hn, value_cons, (digitChar_spec hn).2]
      simp [value]
  | case2 n hn ih =>
      rw [digits, if_neg hn, value_append_digit, ih, (digitChar_spec (Nat.mod_lt n (by decide))).2]
      omega

theorem toList_render (n : Nat) : (render n).toList = digits n :=
  String.toList_ofList

/-- What is written for a number spells it. -/
theorem spells_render (n : Nat) : Spells (render n).toList n := by
  have h := Spells.plain (digits_ne_nil n) fun c hc => isDigit_of_mem_digits hc
  rwa [value_digits, ← toList_render] at h

theorem read_render {limit n : Nat} (h : n < limit) : read limit (render n).toList = .ok n :=
  (read_eq_ok_iff (Nat.zero_lt_of_lt h)).2 ⟨spells_render n, h⟩

end HatCircle.Numeral
