import HatCircle.Proofs.Lexing

/-!
# Texts as parts

The check of brackets goes over a text in parts: a variable in brackets is one part, and so is
each character that is neither a bracket letter nor a bracket. At any place of a text either a
part begins or there is a fault that the check reports (`exists_part_or_fault`), never both
(`BracketFault.not_part`). So a text passes exactly if it splits into parts
(`checkBrackets_eq_ok_iff`), and a check that fails has gone over parts up to a fault
(`checkBrackets_eq_error_iff`).
-/

namespace HatCircle

/-! ### Parts and faults -/

/-- What the check goes over at once. -/
inductive Puzzle.BracketPart (puzzle : Puzzle) : List Char → Prop where
  | variable {family : BracketFamily} {distance : Char} (listed : family ∈ puzzle.brackets)
      (range : '1' ≤ distance ∧ distance ≤ '9') :
      puzzle.BracketPart [family.letter, '[', distance, ']']
  | char {c : Char} (unlisted : ∀ family ∈ puzzle.brackets, family.letter ≠ c)
      (opening : c ≠ '[') (closing : c ≠ ']') : puzzle.BracketPart [c]

/-- The text splits into parts. -/
def Puzzle.Bracketed (puzzle : Puzzle) (text : List Char) : Prop :=
  ∃ parts : List (List Char), parts.flatten = text ∧ ∀ part ∈ parts, puzzle.BracketPart part

/-- What is wrong with a text at whose start no part begins, as the reason that is reported. -/
inductive Puzzle.BracketFault (puzzle : Puzzle) : List Char → Rejection → Prop where
  | bare {letter : Char} {rest : List Char} (listed : puzzle.isBracketLetter letter = true)
      (bare : rest.head? ≠ some '[') :
      puzzle.BracketFault (letter :: rest)
        (.malformedBracket (String.ofList ((letter :: rest).take 2)))
  | unclosed {letter : Char} {inner : List Char} (listed : puzzle.isBracketLetter letter = true)
      (unclosed : ']' ∉ inner) :
      puzzle.BracketFault (letter :: '[' :: inner)
        (.malformedBracket (String.ofList (letter :: '[' :: inner)))
  | content {letter : Char} {content after : List Char}
      (listed : puzzle.isBracketLetter letter = true) (closed : ']' ∉ content)
      (wrong : isSingleDistance content = false) :
      puzzle.BracketFault (letter :: '[' :: (content ++ ']' :: after))
        (.invalidBracketContent (String.ofList content))
  | stray {c : Char} {rest : List Char} (unlisted : puzzle.isBracketLetter c = false)
      (bracket : c = '[' ∨ c = ']') :
      puzzle.BracketFault (c :: rest) (.malformedBracket (String.ofList [c]))

section Parts

variable {puzzle : Puzzle} {text front part : List Char} {rejection : Rejection}

theorem isBracketLetter_eq_false_iff (puzzle : Puzzle) (c : Char) :
    puzzle.isBracketLetter c = false ↔ ∀ family ∈ puzzle.brackets, family.letter ≠ c := by
  rw [← Bool.not_eq_true, isBracketLetter_iff]
  simp only [not_exists, not_and, Ne]

theorem isSingleDistance_iff (content : List Char) :
    isSingleDistance content = true ↔ ∃ distance, content = [distance] ∧
      isDistance distance = true := by
  constructor
  · intro h
    cases content with
    | nil => cases h
    | cons distance others =>
        cases others with
        | nil => exact ⟨distance, rfl, h⟩
        | cons => cases h
  · rintro ⟨distance, rfl, h⟩
    exact h

theorem exists_part_or_fault (puzzle : Puzzle) (c : Char) (rest : List Char) :
    (∃ part after, c :: rest = part ++ after ∧ puzzle.BracketPart part) ∨
      ∃ rejection, puzzle.BracketFault (c :: rest) rejection := by
  cases hletter : puzzle.isBracketLetter c with
  | true =>
      by_cases hopening : rest.head? = some '['
      · obtain ⟨inner, rfl⟩ := List.head?_eq_some_iff.1 hopening
        by_cases hclosing : ']' ∈ inner
        · obtain ⟨content, after, rfl, hfirst⟩ := List.eq_append_cons_of_mem hclosing
          cases hcontent : isSingleDistance content with
          | true =>
              obtain ⟨distance, rfl, hrange⟩ := (isSingleDistance_iff content).1 hcontent
              obtain ⟨family, hfamily, rfl⟩ := (isBracketLetter_iff ..).1 hletter
              exact .inl ⟨_, after, rfl, .variable hfamily ((isDistance_iff _).1 hrange)⟩
          | false => exact .inr ⟨_, .content hletter hfirst hcontent⟩
        · exact .inr ⟨_, .unclosed hletter hclosing⟩
      · exact .inr ⟨_, .bare hletter hopening⟩
  | false =>
      by_cases hbracket : c = '[' ∨ c = ']'
      · exact .inr ⟨_, .stray hletter hbracket⟩
      · rw [not_or] at hbracket
        rw [isBracketLetter_eq_false_iff] at hletter
        exact .inl ⟨[c], rest, rfl, .char hletter hbracket.1 hbracket.2⟩

/-! ### The first step of the check -/

/-- Characters of a class that brackets are not in are no brackets. -/
theorem ne_bracket {p : Char → Bool} {c : Char} (h : p c = true) (hopening : p '[' = false)
    (hclosing : p ']' = false) : c ≠ '[' ∧ c ≠ ']' := by
  constructor
  · rintro rfl
    rw [h] at hopening
    cases hopening
  · rintro rfl
    rw [h] at hclosing
    cases hclosing

theorem closing_notMem_distance {distance : Char} (h : isDistance distance = true) :
    ']' ∉ [distance] := by
  simpa using (ne_bracket h rfl rfl).2.symm

/-- The content of a bracket reaches to the first bracket that closes. -/
theorem takeWhile_closing {content : List Char} (h : ']' ∉ content) (after : List Char) :
    (content ++ ']' :: after).takeWhile (· != ']') = content := by
  have hcontent : ∀ c ∈ content, (c != ']') = true := by
    intro c hc
    exact bne_iff_ne.2 (ne_of_mem_of_not_mem hc h)
  rw [List.takeWhile_append_of_pos hcontent, List.takeWhile_cons_of_neg (by decide),
    List.append_nil]

theorem dropWhile_closing {content : List Char} (h : ']' ∉ content) (after : List Char) :
    (content ++ ']' :: after).dropWhile (· != ']') = ']' :: after := by
  have hwhole := @List.takeWhile_append_dropWhile _ (· != ']') (content ++ ']' :: after)
  rw [takeWhile_closing h] at hwhole
  exact List.append_cancel_left hwhole

theorem checkBrackets_cons {c : Char} (hletter : puzzle.isBracketLetter c = false)
    (hbracket : c ≠ '[' ∧ c ≠ ']') :
    checkBrackets puzzle (c :: text) = checkBrackets puzzle text := by
  rw [checkBrackets.eq_def]
  simp [hletter, hbracket.1, hbracket.2]

/-- A bracket behind a letter is read up to where it closes. -/
theorem checkBrackets_of_closed {letter : Char} {content : List Char}
    (hletter : puzzle.isBracketLetter letter = true) (hclosed : ']' ∉ content)
    (after : List Char) :
    checkBrackets puzzle (letter :: '[' :: (content ++ ']' :: after)) =
      if isSingleDistance content then checkBrackets puzzle after
      else .error (.invalidBracketContent (String.ofList content)) := by
  rw [checkBrackets.eq_def]
  simp only [hletter, if_true, takeWhile_closing hclosed]
  split
  · rename_i hnil
    rw [dropWhile_closing hclosed] at hnil
    cases hnil
  · rename_i hafter
    rw [dropWhile_closing hclosed] at hafter
    obtain ⟨-, rfl⟩ := List.cons.inj hafter
    rfl

theorem checkBrackets_variable {letter distance : Char}
    (hletter : puzzle.isBracketLetter letter = true) (hdistance : isDistance distance = true) :
    checkBrackets puzzle (letter :: '[' :: distance :: ']' :: text) =
      checkBrackets puzzle text := by
  have hstep := checkBrackets_of_closed hletter (closing_notMem_distance hdistance) text
  rwa [(isSingleDistance_iff _).2 ⟨distance, rfl, hdistance⟩, if_pos rfl] at hstep

namespace Puzzle.BracketPart

theorem ne_nil (h : puzzle.BracketPart part) : part ≠ [] := by
  cases h <;> exact List.cons_ne_nil _ _

theorem checkBrackets_append (h : puzzle.BracketPart part) (text : List Char) :
    checkBrackets puzzle (part ++ text) = checkBrackets puzzle text := by
  cases h with
  | «variable» hfamily hrange =>
      exact checkBrackets_variable ((isBracketLetter_iff ..).2 ⟨_, hfamily, rfl⟩)
        ((isDistance_iff _).2 hrange)
  | char hletter hopening hclosing =>
      exact checkBrackets_cons ((isBracketLetter_eq_false_iff ..).2 hletter) ⟨hopening, hclosing⟩

end Puzzle.BracketPart

namespace Puzzle.BracketFault

theorem ne_variable {letter distance : Char} {rest : List Char}
    (h : puzzle.BracketFault (letter :: rest) rejection)
    (hletter : puzzle.isBracketLetter letter = true) (hdistance : isDistance distance = true)
    (after : List Char) : rest ≠ '[' :: distance :: ']' :: after := by
  intro hrest
  cases h with
  | bare _ hbare => exact hbare (by rw [hrest, List.head?_cons])
  | unclosed _ hunclosed =>
      obtain ⟨-, rfl⟩ := List.cons.inj hrest
      exact hunclosed (by simp)
  | content _ hclosed hwrong =>
      have hnone := closing_notMem_distance hdistance
      have hsame := congrArg (List.takeWhile (· != ']')) (List.cons.inj hrest).2
      rw [takeWhile_closing hclosed] at hsame
      have hcontent := hsame.trans (takeWhile_closing hnone after)
      rw [hcontent, (isSingleDistance_iff _).2 ⟨distance, rfl, hdistance⟩] at hwrong
      cases hwrong
  | stray hunlisted =>
      rw [hletter] at hunlisted
      cases hunlisted

theorem bracket_of_unlisted {c : Char} {rest : List Char}
    (h : puzzle.BracketFault (c :: rest) rejection)
    (hletter : puzzle.isBracketLetter c = false) : c = '[' ∨ c = ']' := by
  rw [← Bool.not_eq_true] at hletter
  cases h with
  | bare hlisted => exact absurd hlisted hletter
  | unclosed hlisted => exact absurd hlisted hletter
  | content hlisted => exact absurd hlisted hletter
  | stray _ hbracket => exact hbracket

/-- No part begins at a fault. -/
theorem not_part (h : puzzle.BracketFault text rejection) (hpart : puzzle.BracketPart part) :
    ¬ part <+: text := by
  rintro ⟨after, rfl⟩
  cases hpart with
  | «variable» hfamily hrange =>
      exact h.ne_variable ((isBracketLetter_iff ..).2 ⟨_, hfamily, rfl⟩)
        ((isDistance_iff _).2 hrange) after rfl
  | char hunlisted hopening hclosing =>
      have hbracket := h.bracket_of_unlisted ((isBracketLetter_eq_false_iff ..).2 hunlisted)
      exact hbracket.elim hopening hclosing

theorem checkBrackets_eq (h : puzzle.BracketFault text rejection) :
    checkBrackets puzzle text = .error rejection := by
  cases h with
  | bare hletter hbare =>
      rw [checkBrackets.eq_def]
      simp only [hletter, if_true]
      split
      · exact absurd rfl hbare
      · rfl
  | @unclosed letter inner hletter hunclosed =>
      have hnil : inner.dropWhile (· != ']') = [] := by
        rw [List.dropWhile_eq_nil_iff]
        intro c hc
        exact bne_iff_ne.2 (ne_of_mem_of_not_mem hc hunclosed)
      rw [checkBrackets.eq_def]
      simp only [hletter, if_true]
      split
      · rfl
      · rename_i hafter
        rw [hnil] at hafter
        cases hafter
  | content hletter hclosed hwrong =>
      rw [checkBrackets_of_closed hletter hclosed, hwrong, if_neg (by decide)]
  | stray hletter hbracket =>
      rw [checkBrackets.eq_def]
      simp only [hletter, hbracket, if_true]
      rfl

/-- What is reported stands at the fault or, if the brackets there hold anything but a distance,
between these brackets. -/
theorem quotes (h : puzzle.BracketFault text rejection) :
    (∃ fragment, fragment ≠ [] ∧ fragment <+: text ∧
      rejection = .malformedBracket (String.ofList fragment)) ∨
    ∃ letter content after, puzzle.isBracketLetter letter = true ∧
      text = letter :: '[' :: (content ++ ']' :: after) ∧ ']' ∉ content ∧
      isSingleDistance content = false ∧
      rejection = .invalidBracketContent (String.ofList content) := by
  cases h with
  | bare => exact .inl ⟨_, by simp, List.take_prefix .., rfl⟩
  | unclosed => exact .inl ⟨_, List.cons_ne_nil _ _, List.prefix_rfl, rfl⟩
  | content hletter hclosed hwrong =>
      exact .inr ⟨_, _, _, hletter, rfl, hclosed, hwrong, rfl⟩
  | stray => exact .inl ⟨_, List.cons_ne_nil _ _, List.prefix_append [_] _, rfl⟩

end Puzzle.BracketFault

/-! ### Texts that split -/

namespace Puzzle.Bracketed

theorem nil : puzzle.Bracketed [] := ⟨[], rfl, fun _ h => absurd h List.not_mem_nil⟩

theorem cons (hpart : puzzle.BracketPart part) (h : puzzle.Bracketed text) :
    puzzle.Bracketed (part ++ text) := by
  obtain ⟨parts, rfl, hparts⟩ := h
  exact ⟨part :: parts, rfl, List.forall_mem_cons.2 ⟨hpart, hparts⟩⟩

/-- Behind a text that splits into parts the check goes on as if it began there. -/
theorem checkBrackets_append (h : puzzle.Bracketed front) (text : List Char) :
    checkBrackets puzzle (front ++ text) = checkBrackets puzzle text := by
  obtain ⟨parts, rfl, hparts⟩ := h
  induction parts with
  | nil => rfl
  | cons part parts ih =>
      rw [List.forall_mem_cons] at hparts
      rw [List.flatten_cons, List.append_assoc, hparts.1.checkBrackets_append, ih hparts.2]

end Puzzle.Bracketed

/-- A text splits into parts up to its end or up to a fault. -/
theorem exists_bracketed (puzzle : Puzzle) (text : List Char) :
    ∃ front back, text = front ++ back ∧ puzzle.Bracketed front ∧
      (back = [] ∨ ∃ rejection, puzzle.BracketFault back rejection) := by
  induction hlength : text.length using Nat.strong_induction_on generalizing text with
  | _ length ih =>
      cases text with
      | nil => exact ⟨[], [], rfl, .nil, .inl rfl⟩
      | cons c rest =>
          rcases exists_part_or_fault puzzle c rest with ⟨part, after, htext, hpart⟩ | hfault
          · have hshorter : after.length < length := by
              have hpos := List.length_pos_of_ne_nil hpart.ne_nil
              rw [← hlength, htext, List.length_append]
              omega
            obtain ⟨front, back, rfl, hfront, hback⟩ := ih _ hshorter after rfl
            rw [htext, ← List.append_assoc]
            exact ⟨part ++ front, back, rfl, hfront.cons hpart, hback⟩
          · exact ⟨[], c :: rest, rfl, .nil, .inr hfault⟩

theorem checkBrackets_eq_ok_iff (puzzle : Puzzle) (text : List Char) :
    checkBrackets puzzle text = .ok () ↔ puzzle.Bracketed text := by
  constructor
  · intro h
    obtain ⟨front, back, rfl, hfront, rfl | ⟨rejection, hfault⟩⟩ := exists_bracketed puzzle text
    · rwa [List.append_nil]
    · rw [hfront.checkBrackets_append, hfault.checkBrackets_eq] at h
      cases h
  · intro h
    have hcheck := h.checkBrackets_append []
    rwa [List.append_nil, checkBrackets] at hcheck

theorem checkBrackets_eq_error_iff (puzzle : Puzzle) (text : List Char) (rejection : Rejection) :
    checkBrackets puzzle text = .error rejection ↔ ∃ front back, text = front ++ back ∧
      puzzle.Bracketed front ∧ puzzle.BracketFault back rejection := by
  constructor
  · intro h
    obtain ⟨front, back, rfl, hfront, rfl | ⟨found, hfault⟩⟩ := exists_bracketed puzzle text
    · rw [hfront.checkBrackets_append, checkBrackets] at h
      cases h
    · rw [hfront.checkBrackets_append, hfault.checkBrackets_eq] at h
      obtain rfl := Except.error.inj h
      exact ⟨front, back, rfl, hfront, hfault⟩
  · rintro ⟨front, back, rfl, hfront, hfault⟩
    rw [hfront.checkBrackets_append, hfault.checkBrackets_eq]

/-- Nothing but the empty text splits into parts at a fault. -/
theorem Puzzle.BracketFault.eq_nil (h : puzzle.BracketFault text rejection)
    (hfront : front <+: text) (hsplits : puzzle.Bracketed front) : front = [] := by
  obtain ⟨parts, rfl, hparts⟩ := hsplits
  cases parts with
  | nil => rfl
  | cons part parts =>
      have hpre := (List.prefix_append part parts.flatten).trans hfront
      exact absurd hpre (h.not_part (hparts part List.mem_cons_self))

end Parts

end HatCircle
