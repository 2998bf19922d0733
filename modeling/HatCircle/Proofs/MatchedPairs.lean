import HatCircle.Proofs.Pairing

/-!
# The groups of matched pairs

Parentheses may be counted instead of stacked. A text is balanced if the count of those that
are open never falls below zero and ends there, and a matched pair is one with a balanced text
between. `Shrunk` gives what such a pair encloses with each group in it replaced by one operand.
A text passes the check exactly if it is balanced and what its pairs enclose, shrunk, ends well
(`grouped_iff_pairs`).

A failing check goes back to one place of the text (`Reason`): a parenthesis without a partner,
or the first pair to close around a text that does not end well. On the way there every stretch
that the check cuts out is a sound text, so no cut goes beyond the text and the depth inside a
group never falls below zero. `scanGroups?` is the check with these conditions as conditions of
its own, and it gives what the check gives (`scanGroups_spec`).
-/

namespace HatCircle

/-! ### Shrunk texts -/

/-- The text with each outermost group in it replaced by one operand. -/
inductive Shrunk : List Char → List Char → Prop where
  | nil : Shrunk [] []
  | char {c : Char} {rest content : List Char} (opening : c ≠ '(') (closing : c ≠ ')')
      (shrunk : Shrunk rest content) : Shrunk (c :: rest) (c :: content)
  | group {inner rest content : List Char} (inside : Balanced inner)
      (shrunk : Shrunk rest content) :
      Shrunk ('(' :: (inner ++ ')' :: rest)) (placeholder :: content)

theorem Grouped.shrunk {text : List Char} (h : Grouped text) : Shrunk text (topLevel text) := by
  induction h with
  | nil => exact .nil
  | char hopening hclosing _ ih =>
      rw [topLevel_char hopening hclosing]
      exact .char hopening hclosing ih
  | group hinside _ _ _ ih =>
      rw [topLevel_group hinside]
      exact .group hinside.balanced ih

/-- A text has one shrunk form. -/
theorem Shrunk.unique {text content other : List Char} (h : Shrunk text content)
    (h' : Shrunk text other) : content = other := by
  induction h generalizing other with
  | nil =>
      cases h'
      rfl
  | @char c rest content hopening hclosing _ ih =>
      generalize htext : c :: rest = text at h'
      cases h' with
      | nil => cases htext
      | char _ _ hrest =>
          obtain ⟨rfl, rfl⟩ := List.cons.inj htext
          rw [ih hrest]
      | group => exact absurd (List.cons.inj htext).1 hopening
  | @group inner rest content hinside _ ih =>
      generalize htext : '(' :: (inner ++ ')' :: rest) = text at h'
      cases h' with
      | nil => cases htext
      | char hopening => exact absurd (List.cons.inj htext).1.symm hopening
      | group hinside' hrest =>
          obtain ⟨rfl, rfl⟩ := hinside.eq_of_closing hinside' (List.cons.inj htext).2
          rw [ih hrest]

/-! ### Balanced texts from the left -/

namespace Balanced

/-- If more is closed than opened up to some place, there is a first parenthesis that closes
nothing. -/
theorem exists_unopened {text part : List Char} (hpart : part <+: text)
    (hexcess : part.count '(' < part.count ')') :
    ∃ inner back, text = inner ++ ')' :: back ∧ Balanced inner := by
  induction text using List.reverseRecOn generalizing part with
  | nil =>
      obtain rfl := List.prefix_nil.1 hpart
      exact absurd hexcess (by decide)
  | append_singleton text c ih =>
      by_cases hearlier : ∃ part, part <+: text ∧ part.count '(' < part.count ')'
      · obtain ⟨part, hpart, hexcess⟩ := hearlier
        obtain ⟨inner, back, rfl, hinner⟩ := ih hpart hexcess
        exact ⟨inner, back ++ [c], by simp, hinner⟩
      · have hopened : ∀ part, part <+: text → part.count ')' ≤ part.count '(' :=
          fun part hpart => Nat.not_lt.1 fun hlt => hearlier ⟨part, hpart, hlt⟩
        have htext := hopened text List.prefix_rfl
        obtain rfl : part = text ++ [c] := by
          rcases List.prefix_concat_iff.1 hpart with hall | hwithin
          · exact hall
          · exact absurd hexcess (Nat.not_lt.2 (hopened part hwithin))
        rw [List.count_append, List.count_append, List.count_singleton,
          List.count_singleton] at hexcess
        obtain rfl : c = ')' := by
          by_contra hc
          simp only [beq_iff_eq, hc, if_false] at hexcess
          omega
        refine ⟨text, [], rfl, ?_, hopened⟩
        simp only [beq_self_eq_true, if_true] at hexcess
        have hzero : (if (')' == '(') = true then 1 else 0) = 0 := rfl
        omega

/-- A balanced text is put together from characters and from groups with balanced insides. -/
theorem cons_cases {c : Char} {rest : List Char} (h : Balanced (c :: rest)) :
    (c ≠ '(' ∧ c ≠ ')' ∧ Balanced rest) ∨
      ∃ inner back, c = '(' ∧ rest = inner ++ ')' :: back ∧ Balanced inner ∧ Balanced back := by
  by_cases hopening : c = '('
  · subst hopening
    right
    have hclosed := h.closed
    rw [List.count_cons_self, List.count_cons_of_ne (by decide)] at hclosed
    obtain ⟨inner, back, rfl, hinner⟩ := exists_unopened (List.prefix_refl rest) (by omega)
    refine ⟨inner, back, rfl, rfl, hinner, ?_⟩
    have hsame := hinner.closed
    constructor
    · simp only [List.count_append, List.count_cons_self,
        List.count_cons_of_ne (by decide : ')' ≠ '(')] at hclosed
      omega
    · intro part hpart
      have hopened := h.opened ('(' :: (inner ++ ')' :: part))
        (by simpa [List.prefix_append_right_inj] using hpart)
      simp only [List.count_append, List.count_cons_self,
        List.count_cons_of_ne (by decide : ')' ≠ '('),
        List.count_cons_of_ne (by decide : '(' ≠ ')')] at hopened
      omega
  · left
    have hclosing : c ≠ ')' := by
      rintro rfl
      exact absurd (h.opened [')'] (by simp)) (by decide)
    refine ⟨hopening, hclosing, ?_, ?_⟩
    · have hclosed := h.closed
      rwa [List.count_cons_of_ne hclosing, List.count_cons_of_ne hopening] at hclosed
    · intro part hpart
      have hopened := h.opened (c :: part) (by simpa using hpart)
      rwa [List.count_cons_of_ne hclosing, List.count_cons_of_ne hopening] at hopened

end Balanced

/-! ### Pairs -/

/-- What a pair encloses, with each group in it replaced by one operand, is not empty and has no
operator at its ends. -/
def EnclosesWell (inner : List Char) : Prop :=
  ∃ content, Shrunk inner content ∧ EndsWell content

theorem Grouped.enclosesWell_iff {inner : List Char} (h : Grouped inner) :
    EnclosesWell inner ↔ EndsWell inner := by
  rw [← endsWell_topLevel_iff h]
  constructor
  · rintro ⟨content, hshrunk, hends⟩
    rwa [h.shrunk.unique hshrunk]
  · intro hends
    exact ⟨topLevel inner, h.shrunk, hends⟩

/-- The parentheses around `inner` are a matched pair of the text. -/
def Matches (text front inner back : List Char) : Prop :=
  text = front ++ '(' :: (inner ++ ')' :: back) ∧ Balanced inner

/-- The texts with sound groups are the balanced ones in which each pair encloses a text that
ends well. -/
theorem grouped_iff_pairs (text : List Char) : Grouped text ↔
    Balanced text ∧ ∀ front inner back, Matches text front inner back → EnclosesWell inner := by
  constructor
  · intro h
    refine ⟨h.balanced, ?_⟩
    rintro front inner back ⟨rfl, hinner⟩
    obtain ⟨hgrouped, hends, -⟩ := h.ungroup hinner
    exact hgrouped.enclosesWell_iff.2 hends
  · rintro ⟨hbalanced, hpairs⟩
    -- the inside of a group and what comes behind it are shorter than the text
    induction hlength : text.length using Nat.strong_induction_on generalizing text with
    | _ length ih =>
        cases text with
        | nil => exact .nil
        | cons c rest =>
            rcases hbalanced.cons_cases with ⟨hopening, hclosing, hrest⟩ |
              ⟨inner, back, rfl, rfl, hinner, hback⟩
            · refine .char hopening hclosing (ih rest.length ?_ rest hrest ?_ rfl)
              · simp only [List.length_cons] at hlength
                omega
              · rintro front inner back ⟨rfl, hinner⟩
                exact hpairs (c :: front) inner back ⟨rfl, hinner⟩
            · simp only [List.length_cons, List.length_append] at hlength
              have hgrouped : Grouped inner := by
                refine ih inner.length (by omega) inner hinner ?_ rfl
                rintro front deeper behind ⟨rfl, hdeeper⟩
                exact hpairs ('(' :: front) deeper (behind ++ ')' :: back) ⟨by simp, hdeeper⟩
              have hrest : Grouped back := by
                refine ih back.length (by omega) back hback ?_ rfl
                rintro front later behind ⟨rfl, hlater⟩
                exact hpairs ('(' :: (inner ++ ')' :: front)) later behind ⟨by simp, hlater⟩
              have hends := hgrouped.enclosesWell_iff.1 (hpairs [] inner back ⟨rfl, hinner⟩)
              exact .group hgrouped hends hrest

/-! ### What has been read -/

namespace Opened

variable {read front inner back : List Char} {opened : List Nat}

/-- Up to each place behind the reader no more parentheses are closed than are opened. -/
theorem count_le (h : Opened read opened) :
    ∀ part, part <+: read → part.count ')' ≤ part.count '(' := by
  induction h with
  | outside hsound => exact hsound.balanced.opened
  | @within front inside outer _ hsound ih =>
      intro part hpart
      rcases List.prefix_or_prefix_of_prefix hpart (List.prefix_append front ('(' :: inside)) with
        hwithin | ⟨more, rfl⟩
      · exact ih part hwithin
      · have hfront := ih front List.prefix_rfl
        rcases List.prefix_cons_iff.1 ((List.prefix_append_right_inj front).1 hpart) with
          rfl | ⟨more, rfl, hmore⟩
        · rwa [List.append_nil]
        · have hinside := hsound.balanced.opened more hmore
          simp only [List.count_append, List.count_cons_self,
            List.count_cons_of_ne (by decide : '(' ≠ ')')]
          omega

/-- The pairs behind the reader enclose texts that end well. -/
theorem enclosesWell (h : Opened read opened) (hpair : Matches read front inner back) :
    EnclosesWell inner := by
  induction h generalizing front back with
  | outside hsound => exact ((grouped_iff_pairs _).1 hsound).2 front inner back hpair
  | @within before inside outer _ hsound ih =>
      obtain ⟨htext, hinner⟩ := hpair
      have hopen : inside ≠ inner ++ ')' :: back := by
        rintro rfl
        exact hinner.not_closing_behind hsound.balanced
      rcases List.append_eq_append_iff.1 htext with
        ⟨middle, rfl, hmiddle⟩ | ⟨middle, rfl, hmiddle⟩
      · cases middle with
        | nil => exact absurd (List.cons.inj hmiddle).2 hopen
        | cons c middle =>
            obtain ⟨-, hinside⟩ := List.cons.inj hmiddle
            exact ((grouped_iff_pairs _).1 hsound).2 middle inner back ⟨hinside, hinner⟩
      · cases middle with
        | nil => exact absurd (List.cons.inj hmiddle).2.symm hopen
        | cons c middle =>
            obtain ⟨rfl, hbehind⟩ := List.cons.inj hmiddle
            rcases List.append_eq_append_iff.1 hbehind with
              ⟨later, rfl, hlater⟩ | ⟨later, rfl, hlater⟩
            · cases later with
              | nil => exact absurd (List.cons.inj hlater).1 (by decide)
              | cons c later =>
                  obtain ⟨rfl, -⟩ := List.cons.inj hlater
                  exact ih ⟨rfl, hinner⟩
            · cases later with
              | nil => exact absurd (List.cons.inj hlater).1 (by decide)
              | cons c later =>
                  -- the pair would have to close behind a parenthesis that is still open
                  obtain ⟨rfl, rfl⟩ := List.cons.inj hlater
                  have hclosed := hinner.closed
                  have hmiddle := hinner.opened middle (List.prefix_append ..)
                  have hlater := hsound.balanced.opened (later ++ [')']) (by simp)
                  simp [List.count_append] at hclosed hlater
                  omega

end Opened

/-! ### Reasons -/

/-- What is wrong with the inside of a group. -/
inductive GroupFault : List Char → Rejection → Prop where
  | empty : GroupFault [] .emptyParentheses
  | operators {content : List Char} (some : content ≠ [])
      (all : ∀ c ∈ content, isOperator c = true) :
      GroupFault content .operatorOnlyParentheses
  | leading {first : Char} {rest : List Char} (operator : isOperator first = true)
      (other : ∃ c ∈ rest, isOperator c = false) :
      GroupFault (first :: rest) .leadingOperatorInParentheses
  | trailing {content : List Char} (first : ∀ c ∈ content.head?, isOperator c = false)
      (operator : ∃ c ∈ content.getLast?, isOperator c = true) :
      GroupFault content .trailingOperatorInParentheses

theorem groupFault_of_checkGroup {content : List Char} {rejection : Rejection}
    (h : checkGroup content = .error rejection) : GroupFault content rejection := by
  cases content with
  | nil =>
      obtain rfl := Except.error.inj h
      exact .empty
  | cons c rest =>
      obtain ⟨last, hlast⟩ : ∃ last, (c :: rest).getLast? = some last :=
        ⟨_, List.getLast?_eq_some_getLast (by simp)⟩
      simp only [checkGroup, List.head?_cons, hlast] at h
      split at h
      · rename_i hall
        obtain rfl := Except.error.inj h
        exact .operators (List.cons_ne_nil c rest) (List.all_eq_true.1 hall)
      · rename_i hsome
        split at h
        · rename_i hfirst
          obtain rfl := Except.error.inj h
          refine .leading hfirst ?_
          simpa [List.all_cons, hfirst] using hsome
        · rename_i hfirst
          split at h
          · rename_i hfinal
            obtain rfl := Except.error.inj h
            exact .trailing (by simpa using hfirst) ⟨last, hlast, hfinal⟩
          · cases h

/-- A place of the text at which the check of parentheses fails. -/
inductive Reason (text : List Char) : Rejection → Prop where
  | stray {front back : List Char} (place : text = front ++ ')' :: back)
      (before : Opened front []) : Reason text .unbalancedParentheses
  | unclosed {start : Nat} {outer : List Nat} (before : Opened text (start :: outer)) :
      Reason text .unbalancedParentheses
  | pair {front inner back : List Char} {outer : List Nat} {rejection : Rejection}
      (place : text = front ++ '(' :: (inner ++ ')' :: back)) (before : Opened front outer)
      (inside : Grouped inner) (fault : GroupFault (topLevel inner) rejection) :
      Reason text rejection

/-! ### The conditions of the scan -/

/-- The text from one place up to another one, as long as these are places of the text. -/
def slice? (text : List Char) (start stop : Nat) : Option (List Char) :=
  if start ≤ stop ∧ stop ≤ text.length then some (slice text start stop) else none

/-- The text with each group shrunk to a placeholder, as long as no more groups are left than
have been entered. -/
def topLevelAt? (depth : Nat) : List Char → Option (List Char)
  | [] => some []
  | c :: rest =>
    if c = '(' then
      if depth = 0 then (topLevelAt? 1 rest).map (placeholder :: ·)
      else topLevelAt? (depth + 1) rest
    else if c = ')' then
      if depth = 0 then none else topLevelAt? (depth - 1) rest
    else if depth = 0 then (topLevelAt? 0 rest).map (c :: ·)
    else topLevelAt? depth rest

/-- The check of groups, which gives nothing where a slice is out of range or a depth would fall
below zero. -/
def scanGroups? (text : List Char) (opened : List Nat) (place : Nat) :
    List Char → Option (Except Rejection Unit)
  | [] => some (if opened.isEmpty then .ok () else .error .unbalancedParentheses)
  | c :: rest =>
    if c = '(' then scanGroups? text (place :: opened) (place + 1) rest
    else if c = ')' then
      match opened with
      | [] => some (.error .unbalancedParentheses)
      | start :: outer => do
        let inner ← slice? text (start + 1) place
        let content ← topLevelAt? 0 inner
        match checkGroup content with
        | .error rejection => some (.error rejection)
        | .ok () => scanGroups? text outer (place + 1) rest
    else scanGroups? text opened (place + 1) rest

theorem topLevelAt?_succ_append {text : List Char} (h : Grouped text) (depth : Nat)
    (rest : List Char) :
    topLevelAt? (depth + 1) (text ++ rest) = topLevelAt? (depth + 1) rest := by
  induction h generalizing depth rest with
  | nil => rfl
  | char hopening hclosing _ ih => simp [topLevelAt?, hopening, hclosing, ih]
  | group _ _ _ ihinner ihrest => simp [topLevelAt?, ihinner, ihrest]

/-- In a sound text every group that is left has been entered. -/
theorem topLevelAt?_eq {text : List Char} (h : Grouped text) :
    topLevelAt? 0 text = some (topLevel text) := by
  induction h with
  | nil => rfl
  | char hopening hclosing _ ih =>
      rw [topLevel_char hopening hclosing]
      simp [topLevelAt?, hopening, hclosing, ih]
  | group hinside _ _ _ ihrest =>
      rw [topLevel_group hinside]
      simp [topLevelAt?, topLevelAt?_succ_append hinside, ihrest]

theorem slice_pair (front inner back : List Char) :
    slice (front ++ '(' :: (inner ++ ')' :: back)) (front.length + 1)
      (front.length + 1 + inner.length) = inner := by
  simpa using slice_append (front ++ ['(']) inner (')' :: back)

theorem slice?_append (front inner back : List Char) :
    slice? (front ++ (inner ++ back)) front.length (front.length + inner.length) = some inner := by
  rw [slice?, slice_append, if_pos]
  constructor
  · exact Nat.le_add_right _ _
  · simp only [List.length_append]
    omega

theorem slice?_pair (front inner back : List Char) :
    slice? (front ++ '(' :: (inner ++ ')' :: back)) (front.length + 1)
      (front.length + 1 + inner.length) = some inner := by
  simpa using slice?_append (front ++ ['(']) inner (')' :: back)

section Scan

variable {whole read rest : List Char} {opened : List Nat}

theorem scanGroups?_char {c : Char} (hopening : c ≠ '(') (hclosing : c ≠ ')') (place : Nat) :
    scanGroups? whole opened place (c :: rest) = scanGroups? whole opened (place + 1) rest := by
  rw [scanGroups?.eq_def]
  simp only [hopening, hclosing, if_false]

theorem scanGroups?_opening (place : Nat) : scanGroups? whole opened place ('(' :: rest) =
    scanGroups? whole (place :: opened) (place + 1) rest := by
  rw [scanGroups?.eq_def]
  simp only [if_true]

/-- A group that closes is checked, and the scan goes on behind it. -/
theorem scanGroups_group {front inside : List Char} (outer : List Nat)
    (hplace : whole = front ++ '(' :: (inside ++ ')' :: rest)) :
    scanGroups whole (front.length :: outer) (front.length + 1 + inside.length) (')' :: rest) =
      (do
        checkGroup (topLevel inside)
        scanGroups whole outer (front.length + 1 + inside.length + 1) rest) := by
  rw [scanGroups, if_neg (by decide), if_pos rfl]
  simp only [hplace, slice_pair]

theorem scanGroups?_of_fault {front inside : List Char} {rejection : Rejection}
    (hinside : Grouped inside) (outer : List Nat)
    (hplace : whole = front ++ '(' :: (inside ++ ')' :: rest))
    (hcheck : checkGroup (topLevel inside) = .error rejection) :
    scanGroups? whole (front.length :: outer) (front.length + 1 + inside.length) (')' :: rest) =
      some (.error rejection) := by
  rw [scanGroups?, if_neg (by decide), if_pos rfl]
  simp only [hplace, slice?_pair, topLevelAt?_eq hinside, hcheck, Option.bind_eq_bind,
    Option.bind_some]

theorem scanGroups?_of_sound {front inside : List Char} (hinside : Grouped inside)
    (outer : List Nat) (hplace : whole = front ++ '(' :: (inside ++ ')' :: rest))
    (hcheck : checkGroup (topLevel inside) = .ok ()) :
    scanGroups? whole (front.length :: outer) (front.length + 1 + inside.length) (')' :: rest) =
      scanGroups? whole outer (front.length + 1 + inside.length + 1) rest := by
  rw [scanGroups?, if_neg (by decide), if_pos rfl]
  simp only [hplace, slice?_pair, topLevelAt?_eq hinside, hcheck, Option.bind_eq_bind,
    Option.bind_some]

/-- Going on from any place, the scan keeps its conditions, and if it fails it has a reason. -/
theorem scanGroups_spec (hopened : Opened read opened) (hwhole : whole = read ++ rest) :
    scanGroups? whole opened read.length rest =
        some (scanGroups whole opened read.length rest) ∧
      ∀ rejection, scanGroups whole opened read.length rest = .error rejection →
        Reason whole rejection := by
  induction rest generalizing read opened with
  | nil =>
      refine ⟨rfl, ?_⟩
      intro rejection h
      cases hopened with
      | outside => cases h
      | within hbefore hsound =>
          obtain rfl := Except.error.inj h
          rw [hwhole, List.append_nil]
          exact .unclosed (.within hbefore hsound)
  | cons c rest ih =>
      by_cases hopening : c = '('
      · subst hopening
        have hnext := ih (Opened.within hopened .nil) (by simp [hwhole])
        rw [scanGroups_opening, scanGroups?_opening]
        simpa using hnext
      · by_cases hclosing : c = ')'
        · subst hclosing
          cases hopened with
          | outside hsound =>
              refine ⟨rfl, ?_⟩
              intro rejection h
              obtain rfl := Except.error.inj h
              exact .stray hwhole (.outside hsound)
          | @within front inside outer hbefore hinside =>
              have hread : (front ++ '(' :: inside).length = front.length + 1 + inside.length := by
                simp only [List.length_append, List.length_cons]
                omega
              have hplace : whole = front ++ '(' :: (inside ++ ')' :: rest) := by simp [hwhole]
              rw [hread, scanGroups_group outer hplace]
              cases hcheck : checkGroup (topLevel inside) with
              | error rejection =>
                  rw [scanGroups?_of_fault hinside outer hplace hcheck]
                  refine ⟨rfl, ?_⟩
                  intro rejection' h
                  obtain rfl := Except.error.inj h
                  exact .pair hplace hbefore hinside (groupFault_of_checkGroup hcheck)
              | ok _ =>
                  have hends : EndsWell inside :=
                    (endsWell_topLevel_iff hinside).1 ((checkGroup_eq_ok_iff _).1 hcheck)
                  have hgroup : Grouped ('(' :: (inside ++ [')'])) := .group hinside hends .nil
                  have hnext := ih (hbefore.append hgroup) (by simp [hwhole])
                  rw [scanGroups?_of_sound hinside outer hplace hcheck]
                  simpa [bind, Except.bind, Nat.add_assoc, Nat.add_comm, Nat.add_left_comm]
                    using hnext
        · have hchar : Grouped [c] := .char hopening hclosing .nil
          have hnext := ih (hopened.append hchar) (by simp [hwhole])
          rw [scanGroups_char hopening hclosing, scanGroups?_char hopening hclosing]
          simpa using hnext

end Scan

/-! ### Failing checks -/

/-- What is wrong with a group keeps its inside from ending well. -/
theorem GroupFault.not_endsWell {content : List Char} {rejection : Rejection}
    (h : GroupFault content rejection) : ¬ EndsWell content := by
  intro hends
  cases h with
  | empty => exact hends.ne_nil rfl
  | operators hsome hall =>
      have hhead := hends.head (content.head hsome) (List.head?_eq_some_head hsome)
      rw [hall _ (List.head_mem hsome)] at hhead
      cases hhead
  | leading hoperator =>
      rw [hends.head _ rfl] at hoperator
      cases hoperator
  | trailing _ hoperator =>
      obtain ⟨c, hc, hoperator⟩ := hoperator
      rw [hends.last c hc] at hoperator
      cases hoperator

/-- Of the pairs that do not enclose a text that ends well, the one that closes first. No
parenthesis in front of its end is without a partner that opens. -/
structure FirstFault (text front inner back : List Char) (rejection : Rejection) : Prop where
  pair : Matches text front inner back
  offends : ¬ EnclosesWell inner
  fault : ∃ content, Shrunk inner content ∧ GroupFault content rejection
  first : ∀ front' inner' back', Matches text front' inner' back' → ¬ EnclosesWell inner' →
    front.length + inner.length ≤ front'.length + inner'.length
  opened : ∀ part, part <+: front ++ '(' :: inner → part.count ')' ≤ part.count '('

/-- A text that is read up to an open parenthesis is not balanced. -/
theorem Opened.not_balanced {text : List Char} {start : Nat} {outer : List Nat}
    (h : Opened text (start :: outer)) : ¬ Balanced text := by
  intro hbalanced
  cases h with
  | @within front inside _ hbefore hsound =>
      have hclosed := hbalanced.closed
      have hfront := hbefore.count_le front List.prefix_rfl
      have hinside := hsound.balanced.closed
      simp only [List.count_append, List.count_cons_self,
        List.count_cons_of_ne (by decide : '(' ≠ ')')] at hclosed
      omega

/-- The pair at which the scan stops is the first one that is at fault, since the pairs that
close before it are behind the reader. -/
theorem Opened.firstFault {front inner back : List Char} {outer : List Nat}
    {rejection : Rejection} (hbefore : Opened front outer) (hinside : Grouped inner)
    (hfault : GroupFault (topLevel inner) rejection) :
    FirstFault (front ++ '(' :: (inner ++ ')' :: back)) front inner back rejection := by
  have hread : Opened (front ++ '(' :: inner) (front.length :: outer) := .within hbefore hinside
  have hoffends : ¬ EnclosesWell inner := by
    rw [hinside.enclosesWell_iff, ← endsWell_topLevel_iff hinside]
    exact hfault.not_endsWell
  refine ⟨⟨rfl, hinside.balanced⟩, hoffends, ⟨topLevel inner, hinside.shrunk, hfault⟩, ?_,
    hread.count_le⟩
  rintro front' inner' back' ⟨hplace, hinner'⟩ hoffends'
  by_contra hearlier
  have hfront : front ++ '(' :: inner <+: front ++ '(' :: (inner ++ ')' :: back) :=
    ⟨')' :: back, by simp⟩
  have hfront' : front' ++ '(' :: (inner' ++ [')']) <+: front ++ '(' :: (inner ++ ')' :: back) :=
    ⟨back', by simp [hplace]⟩
  obtain ⟨behind, hbehind⟩ := List.prefix_of_prefix_length_le hfront' hfront (by
    simp only [List.length_append, List.length_cons, List.length_nil]
    omega)
  have hpair : Matches (front ++ '(' :: inner) front' inner' behind :=
    ⟨by simp [← hbehind], hinner'⟩
  exact hoffends' (hread.enclosesWell hpair)

/-- The check of parentheses passes a text exactly if the count of open parentheses never falls
below zero and ends there, and each matched pair encloses, with the groups in it replaced by one
operand, a text that is not empty and has no operator at its ends. If it fails, then either the
text is not balanced, or what is wrong is wrong with the first pair to close among those that are
at fault, and no parenthesis closes nothing before. All that it slices is in range, and no group
is left that has not been entered. -/
theorem checkParentheses_pairs (text : List Char) :
    (checkParentheses text = .ok () ↔ Balanced text ∧
      ∀ front inner back, Matches text front inner back → EnclosesWell inner) ∧
    (∀ rejection, checkParentheses text = .error rejection →
      (rejection = .unbalancedParentheses ∧ ¬ Balanced text) ∨
        ∃ front inner back, FirstFault text front inner back rejection) ∧
    scanGroups? text [] 0 text = some (checkParentheses text) := by
  obtain ⟨hscan, hreason⟩ := scanGroups_spec (.outside .nil) (by simp : text = [] ++ text)
  refine ⟨(checkParentheses_eq_ok_iff text).trans (grouped_iff_pairs text), ?_, hscan⟩
  intro rejection h
  cases hreason rejection h with
  | stray hplace hbefore =>
      cases hbefore with
      | outside hsound =>
          rw [hplace]
          exact .inl ⟨rfl, hsound.balanced.not_closing_behind⟩
  | unclosed hbefore => exact .inl ⟨rfl, hbefore.not_balanced⟩
  | pair hplace hbefore hinside hfault =>
      rw [hplace]
      exact .inr ⟨_, _, _, hbefore.firstFault hinside hfault⟩

/-- The text is balanced, and the outer pair and the second of the inner ones are at fault. -/
theorem checkParentheses_pairs_leading : ∃ front inner back,
    FirstFault "((1)+(-2)×)".toList front inner back .leadingOperatorInParentheses := by
  obtain ⟨-, hfails, -⟩ := checkParentheses_pairs "((1)+(-2)×)".toList
  rcases hfails .leadingOperatorInParentheses (by decide +kernel) with ⟨hother, -⟩ | hfirst
  · cases hother
  · exact hfirst

end HatCircle
