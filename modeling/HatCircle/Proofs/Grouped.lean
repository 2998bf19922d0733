import HatCircle.Formula.Grouping

/-!
# Texts with sound groups

The check of parentheses goes through a text once, with a stack of places, and looks at
each group when it closes. `Grouped` says what it looks for without a stack: such a text
is put together from single characters and from groups in parentheses, and the inside of
a group is again such a text, is not empty and has no operator at its ends.
`checkParentheses_eq_ok_iff` states that the check passes just these texts.

While the text is being read, `Opened` describes what lies behind the reader: a sound
text in front of the outermost open group, and a sound text in each open group.
-/

namespace HatCircle

/-- A text that is not empty and has no operator at its ends. -/
structure EndsWell (text : List Char) : Prop where
  ne_nil : text ≠ []
  head : ∀ c ∈ text.head?, isOperator c = false
  last : ∀ c ∈ text.getLast?, isOperator c = false

namespace EndsWell

theorem singleton {c : Char} (h : isOperator c = false) : EndsWell [c] := by
  constructor
  · simp
  · simpa using h
  · simpa using h

theorem append_cons {front back : List Char} {c : Char} (hf : EndsWell front)
    (hb : EndsWell back) : EndsWell (front ++ c :: back) := by
  refine ⟨by simp, fun d hd => hf.head d ?_, fun d hd => hb.last d ?_⟩
  · cases front with
    | nil => exact absurd rfl hf.ne_nil
    | cons => simpa using hd
  · cases back with
    | nil => exact absurd rfl hb.ne_nil
    | cons => simpa [List.getLast?_append, List.getLast?_cons_cons] using hd

end EndsWell

/-- A text whose parentheses pair up around texts that end well. -/
inductive Grouped : List Char → Prop where
  | nil : Grouped []
  | char {c : Char} {rest : List Char} (opening : c ≠ '(') (closing : c ≠ ')')
      (sound : Grouped rest) : Grouped (c :: rest)
  | group {inner rest : List Char} (inside : Grouped inner) (ends : EndsWell inner)
      (sound : Grouped rest) : Grouped ('(' :: (inner ++ ')' :: rest))

namespace Grouped

theorem append {front back : List Char} (hf : Grouped front) (hb : Grouped back) :
    Grouped (front ++ back) := by
  induction hf with
  | nil => exact hb
  | char hopening hclosing _ ih => exact .char hopening hclosing ih
  | group hinside hends _ _ ih => simpa using Grouped.group hinside hends ih

theorem of_forall_ne {text : List Char} (h : ∀ c ∈ text, c ≠ '(' ∧ c ≠ ')') :
    Grouped text := by
  induction text with
  | nil => exact .nil
  | cons c rest ih =>
      have hc := h c (by simp)
      exact .char hc.1 hc.2 (ih fun d hd => h d (by simp [hd]))

theorem of_cons {c : Char} {rest : List Char} (h : Grouped (c :: rest)) (hc : c ≠ '(') :
    Grouped rest := by
  generalize htext : c :: rest = text at h
  cases h with
  | nil => cases htext
  | char _ _ hrest =>
      obtain ⟨-, rfl⟩ := List.cons.inj htext
      exact hrest
  | group => exact absurd (List.cons.inj htext).1 hc

theorem of_append {front back : List Char} (h : Grouped (front ++ back))
    (hfront : ∀ c ∈ front, c ≠ '(' ∧ c ≠ ')') : Grouped back := by
  induction front with
  | nil => exact h
  | cons c front ih =>
      exact ih (h.of_cons (hfront c (by simp)).1) fun d hd => hfront d (by simp [hd])

end Grouped

/-! ### Groups shrunk to placeholders -/

theorem isOperator_placeholder : isOperator placeholder = false := rfl

/-- A sound text inside a group leaves no trace. -/
theorem topLevelAt_succ_append {text : List Char} (h : Grouped text) (depth : Nat)
    (rest : List Char) :
    topLevelAt (depth + 1) (text ++ rest) = topLevelAt (depth + 1) rest := by
  induction h generalizing depth rest with
  | nil => rfl
  | char hopening hclosing _ ih => simp [topLevelAt, hopening, hclosing, ih]
  | group _ _ _ ihinner ihrest => simp [topLevelAt, ihinner, ihrest]

theorem topLevel_char {c : Char} (hopening : c ≠ '(') (hclosing : c ≠ ')')
    (rest : List Char) : topLevel (c :: rest) = c :: topLevel rest := by
  simp [topLevel, topLevelAt, hopening, hclosing]

theorem topLevel_group {inner : List Char} (h : Grouped inner) (rest : List Char) :
    topLevel ('(' :: (inner ++ ')' :: rest)) = placeholder :: topLevel rest := by
  simp [topLevel, topLevelAt, topLevelAt_succ_append h]

/-- Shrinking the groups of a sound text keeps what matters about its two ends. -/
theorem endsWell_topLevel_iff {text : List Char} (h : Grouped text) :
    EndsWell (topLevel text) ↔ EndsWell text := by
  have hnil : topLevel text = [] ↔ text = [] := by
    cases h with
    | nil => simp [topLevel, topLevelAt]
    | char hopening hclosing => simp [topLevel_char hopening hclosing]
    | group hinside => simp [topLevel_group hinside]
  have hhead : (∀ c ∈ (topLevel text).head?, isOperator c = false) ↔
      ∀ c ∈ text.head?, isOperator c = false := by
    cases h with
    | nil => simp [topLevel, topLevelAt]
    | char hopening hclosing => simp [topLevel_char hopening hclosing]
    | group hinside =>
        simp [topLevel_group hinside, isOperator_placeholder]
        decide
  have hlast : (∀ c ∈ (topLevel text).getLast?, isOperator c = false) ↔
      ∀ c ∈ text.getLast?, isOperator c = false := by
    clear hnil hhead
    induction h with
    | nil => simp [topLevel, topLevelAt]
    | @char c rest hopening hclosing hrest ih =>
        rw [topLevel_char hopening hclosing]
        cases hrest with
        | nil => simp [topLevel, topLevelAt]
        | char ho hc => simpa [topLevel_char ho hc, List.getLast?_cons_cons] using ih
        | group hi => simpa [topLevel_group hi, List.getLast?_cons_cons] using ih
    | @group inner rest hinside _ hrest _ ih =>
        rw [topLevel_group hinside]
        cases hrest with
        | nil =>
            simp [topLevel, topLevelAt, List.getLast?_cons, isOperator_placeholder]
            decide
        | char ho hc =>
            simpa [topLevel_char ho hc, List.getLast?_cons, List.getLast?_append] using ih
        | group hi =>
            simpa [topLevel_group hi, List.getLast?_cons, List.getLast?_append] using ih
  constructor
  · rintro ⟨h₁, h₂, h₃⟩
    exact ⟨fun e => h₁ (hnil.2 e), hhead.1 h₂, hlast.1 h₃⟩
  · rintro ⟨h₁, h₂, h₃⟩
    exact ⟨fun e => h₁ (hnil.1 e), hhead.2 h₂, hlast.2 h₃⟩

theorem checkGroup_eq_ok_iff (content : List Char) :
    checkGroup content = .ok () ↔ EndsWell content := by
  cases content with
  | nil =>
      refine ⟨fun h => ?_, fun h => absurd rfl h.ne_nil⟩
      cases h
  | cons c rest =>
      obtain ⟨last, hlast⟩ : ∃ last, (c :: rest).getLast? = some last :=
        ⟨_, List.getLast?_eq_some_getLast (by simp)⟩
      simp only [checkGroup, List.head?_cons, hlast]
      constructor
      · intro h
        split at h
        · cases h
        · split at h
          · cases h
          · rename_i hfirst
            split at h
            · cases h
            · rename_i hfinal
              exact ⟨by simp, by simpa using hfirst, by simpa [hlast] using hfinal⟩
      · intro h
        have hfirst : isOperator c = false := h.head c rfl
        have hfinal : isOperator last = false := h.last last hlast
        simp [hfirst, hfinal]

/-! ### The scan -/

theorem slice_append (front inner back : List Char) :
    slice (front ++ (inner ++ back)) front.length (front.length + inner.length) = inner := by
  rw [slice, ← List.append_assoc, ← List.length_append, List.take_left, List.drop_left]

section Scan

variable {whole front text rest : List Char} {opened : List Nat} {place : Nat}

theorem scanGroups_char {c : Char} (hopening : c ≠ '(') (hclosing : c ≠ ')') :
    scanGroups whole opened place (c :: rest) = scanGroups whole opened (place + 1) rest := by
  simp only [scanGroups, hopening, hclosing, if_false]

theorem scanGroups_opening :
    scanGroups whole opened place ('(' :: rest) =
      scanGroups whole (place :: opened) (place + 1) rest := by
  simp only [scanGroups, if_true]

/-- A group that closes is checked by what it encloses. -/
theorem scanGroups_closing {inner : List Char} (h : Grouped inner)
    (front rest : List Char) (opened : List Nat)
    (hwhole : whole = front ++ '(' :: (inner ++ ')' :: rest)) :
    scanGroups whole (front.length :: opened) (front.length + 1 + inner.length) (')' :: rest) =
        .ok () ↔
      EndsWell inner ∧
        scanGroups whole opened (front.length + 1 + inner.length + 1) rest = .ok () := by
  have hslice : slice whole (front.length + 1) (front.length + 1 + inner.length) = inner := by
    have := slice_append (front ++ ['(']) inner (')' :: rest)
    simpa [hwhole] using this
  rw [scanGroups, if_neg (by decide), if_pos rfl]
  simp only [hslice]
  rw [← endsWell_topLevel_iff h, ← checkGroup_eq_ok_iff]
  cases hcheck : checkGroup (topLevel inner) with
  | error rejection => simp [bind, Except.bind]
  | ok _ => simp [bind, Except.bind]

/-- A sound stretch of text leaves the open groups as they are. -/
theorem scanGroups_append (h : Grouped text) (front rest : List Char) (opened : List Nat)
    (hwhole : whole = front ++ (text ++ rest)) :
    scanGroups whole opened front.length (text ++ rest) = .ok () ↔
      scanGroups whole opened (front.length + text.length) rest = .ok () := by
  induction h generalizing front rest opened with
  | nil => rfl
  | @char c text hopening hclosing _ ih =>
      have hnext := ih (front ++ [c]) rest opened (by simp [hwhole])
      rw [List.cons_append, scanGroups_char hopening hclosing]
      simpa [Nat.add_assoc, Nat.add_comm 1] using hnext
  | @group inner text hinside hends _ ihinner ihtext =>
      have hinner := ihinner (front ++ ['(']) (')' :: (text ++ rest)) (front.length :: opened)
        (by simp [hwhole])
      have htext := ihtext (front ++ '(' :: (inner ++ [')'])) rest opened (by simp [hwhole])
      have hclosing := scanGroups_closing hinside front (text ++ rest) opened
        (by simp [hwhole] : whole = front ++ '(' :: (inner ++ ')' :: (text ++ rest)))
      simp only [List.length_append, List.length_cons, List.length_nil, Nat.zero_add]
        at hinner htext
      rw [List.cons_append, List.append_assoc, List.cons_append, scanGroups_opening, hinner,
        hclosing]
      simp only [hends, true_and]
      simpa [Nat.add_assoc, Nat.add_comm, Nat.add_left_comm] using htext

end Scan

/-- What has been read when the groups at some places are still open: a sound text in
front of the outermost one, and a sound text so far in each of them. -/
inductive Opened : List Char → List Nat → Prop where
  | outside {read : List Char} (sound : Grouped read) : Opened read []
  | within {front inside : List Char} {outer : List Nat} (before : Opened front outer)
      (sound : Grouped inside) : Opened (front ++ '(' :: inside) (front.length :: outer)

theorem Opened.append {read text : List Char} {opened : List Nat} (h : Opened read opened)
    (ht : Grouped text) : Opened (read ++ text) opened := by
  cases h with
  | outside hread => exact .outside (hread.append ht)
  | within hbefore hinside => simpa using Opened.within hbefore (hinside.append ht)

/-- The step of the scan, run to the end of the text. -/
theorem grouped_of_scanGroups {whole read rest : List Char} {opened : List Nat}
    (hopened : Opened read opened) (hwhole : whole = read ++ rest)
    (h : scanGroups whole opened read.length rest = .ok ()) : Grouped whole := by
  induction rest generalizing read opened with
  | nil =>
      cases hopened with
      | outside hread => simpa [hwhole] using hread
      | within => cases h
  | cons c rest ih =>
      by_cases hopening : c = '('
      · subst hopening
        rw [scanGroups_opening] at h
        exact ih (Opened.within hopened .nil) (by simp [hwhole]) (by simpa using h)
      · by_cases hclosing : c = ')'
        · subst hclosing
          cases hopened with
          | outside => cases h
          | @within front inside outer hbefore hinside =>
              have hread : (front ++ '(' :: inside).length = front.length + 1 + inside.length := by
                simp only [List.length_append, List.length_cons]
                omega
              rw [hread, scanGroups_closing hinside front rest outer (by simp [hwhole])] at h
              have hgroup : Grouped ('(' :: (inside ++ [')'])) := .group hinside h.1 .nil
              refine ih (hbefore.append hgroup) (by simp [hwhole]) ?_
              simpa [Nat.add_assoc, Nat.add_comm, Nat.add_left_comm] using h.2
        · rw [scanGroups_char hopening hclosing] at h
          have hchar : Grouped [c] := .char hopening hclosing .nil
          exact ih (hopened.append hchar) (by simp [hwhole]) (by simpa using h)

/-- The check of parentheses passes the texts with sound groups. -/
theorem checkParentheses_eq_ok_iff (text : List Char) :
    checkParentheses text = .ok () ↔ Grouped text := by
  constructor
  · intro h
    exact grouped_of_scanGroups (.outside .nil) rfl h
  · intro h
    have hscan := scanGroups_append h [] [] [] (by simp : text = [] ++ (text ++ []))
    simpa [checkParentheses, scanGroups] using hscan

end HatCircle
