import HatCircle.Proofs.Charset

/-!
# Masked texts and their brackets

The check of brackets looks at the masked text, in which a placeholder stands for each word. A
stretch of the masked text is the masked form of a stretch of the text itself
(`exists_of_maskWords_eq_append`), and where no placeholder stands, the two are the same
(`eq_of_maskWords_eq`).

From left to right, the check goes over characters that are neither brackets nor bracket letters,
and over variables in brackets. `checkBrackets_cons_eq_ok` says so for one step. A check that
fails has gone over a stretch that it would pass on its own, and quotes what comes next
(`checkBrackets_eq_error`).
-/

namespace HatCircle

/-! ### Stretches of a masked text -/

section Mask

variable {puzzle : Puzzle} {text left masked front back word : List Char} {c : Char}

theorem wordAt?_of_append (h : puzzle.wordAt? (text ++ left) = some word)
    (hlength : word.length ≤ text.length) : puzzle.wordAt? text = some word := by
  unfold Puzzle.wordAt? at h ⊢
  rw [List.find?_eq_some_iff_append] at h ⊢
  obtain ⟨hpre, before, after, hwords, hfirst⟩ := h
  rw [List.isPrefixOf_iff_prefix] at hpre
  refine ⟨?_, before, after, hwords, fun other hother => ?_⟩
  · rw [List.isPrefixOf_iff_prefix]
    exact List.prefix_of_prefix_length_le hpre (List.prefix_append text left) hlength
  · have hnot := hfirst other hother
    simp only [Bool.not_eq_true', Bool.eq_false_iff, Ne, List.isPrefixOf_iff_prefix] at hnot ⊢
    exact fun h => hnot (h.trans (List.prefix_append text left))

theorem wordAt?_eq_none_of_append (h : puzzle.wordAt? (text ++ left) = none) :
    puzzle.wordAt? text = none := by
  unfold Puzzle.wordAt? at h ⊢
  rw [List.find?_eq_none] at h ⊢
  intro other hother
  have hnot := h other hother
  rw [List.isPrefixOf_iff_prefix] at hnot ⊢
  exact fun h => hnot (h.trans (List.prefix_append text left))

theorem ne_nil_of_mem_words (h : word ∈ puzzle.words) : word ≠ [] := by
  obtain ⟨entry, -, hsize, rfl⟩ := (mem_words_iff ..).1 h
  intro hnil
  have hempty : entry.name = "" := by rw [← String.toList_inj, hnil]; rfl
  rw [hempty] at hsize
  exact absurd hsize (by decide)

theorem maskWords_nil : maskWords puzzle [] = [] := by
  rw [maskWords]

/-- A word in front is masked, and the rest is masked on its own. -/
theorem maskWords_append_of_wordAt? (h : puzzle.wordAt? (word ++ text) = some word) :
    maskWords puzzle (word ++ text) = placeholder :: maskWords puzzle text := by
  have hword := (mem_words_of_wordAt? h).1
  obtain ⟨d, more, rfl⟩ := List.exists_cons_of_ne_nil (ne_nil_of_mem_words hword)
  rw [List.cons_append] at h ⊢
  rw [maskWords, h]
  simp

theorem maskWords_cons_of_wordAt? (h : puzzle.wordAt? (c :: text) = none) :
    maskWords puzzle (c :: text) = c :: maskWords puzzle text := by
  rw [maskWords, h]

/-- Cutting a masked text in two cuts the text in two. -/
theorem exists_of_maskWords_eq_append (h : maskWords puzzle text = front ++ back) :
    ∃ before after, text = before ++ after ∧ maskWords puzzle before = front ∧
      maskWords puzzle after = back := by
  induction hn : text.length using Nat.strongRecOn generalizing text front with
  | ind n hrec =>
      subst hn
      cases front with
      | nil => exact ⟨[], text, rfl, maskWords_nil, h⟩
      | cons d front =>
          cases hword : puzzle.wordAt? text with
          | some word =>
              obtain ⟨hmem, tail, rfl⟩ := mem_words_of_wordAt? hword
              rw [maskWords_append_of_wordAt? hword, List.cons_append, List.cons.injEq] at h
              have hlt : tail.length < (word ++ tail).length := by
                have hpos := List.length_pos_of_ne_nil (ne_nil_of_mem_words hmem)
                rw [List.length_append]
                omega
              obtain ⟨before, after, rfl, hbefore, hafter⟩ := hrec _ hlt h.2 rfl
              -- the word is found at the same place when the text ends with the stretch
              have hcut : puzzle.wordAt? (word ++ before) = some word := by
                rw [← List.append_assoc] at hword
                exact wordAt?_of_append hword (by simp)
              refine ⟨word ++ before, after, by rw [List.append_assoc], ?_, hafter⟩
              rw [maskWords_append_of_wordAt? hcut, hbefore, h.1]
          | none =>
              cases text with
              | nil =>
                  rw [maskWords_nil] at h
                  cases h
              | cons c rest =>
                  rw [maskWords_cons_of_wordAt? hword, List.cons_append, List.cons.injEq] at h
                  obtain ⟨before, after, rfl, hbefore, hafter⟩ :=
                    hrec _ (Nat.lt_succ_self _) h.2 rfl
                  have hcut : puzzle.wordAt? (c :: before) = none :=
                    @wordAt?_eq_none_of_append puzzle (c :: before) after hword
                  refine ⟨c :: before, after, rfl, ?_, hafter⟩
                  rw [maskWords_cons_of_wordAt? hcut, hbefore, h.1]

/-- What is no placeholder is a character of the text. -/
theorem exists_of_maskWords_eq_cons (hc : c ≠ placeholder)
    (h : maskWords puzzle text = c :: masked) :
    ∃ rest, text = c :: rest ∧ maskWords puzzle rest = masked := by
  cases text with
  | nil =>
      rw [maskWords_nil] at h
      cases h
  | cons d rest =>
      cases hword : puzzle.wordAt? (d :: rest) with
      | some word =>
          rw [maskWords, hword] at h
          exact absurd (List.cons.inj h).1.symm hc
      | none =>
          rw [maskWords_cons_of_wordAt? hword, List.cons.injEq] at h
          obtain ⟨rfl, hrest⟩ := h
          exact ⟨rest, rfl, hrest⟩

/-- A text whose masked form has no placeholder is its masked form. -/
theorem eq_of_maskWords_eq (h : maskWords puzzle text = masked) (hmasked : placeholder ∉ masked) :
    text = masked := by
  induction masked generalizing text with
  | nil =>
      cases text with
      | nil => rfl
      | cons d rest =>
          rw [maskWords] at h
          split at h <;> cases h
  | cons c masked ih =>
      rw [List.mem_cons, not_or] at hmasked
      obtain ⟨rest, rfl, hrest⟩ := exists_of_maskWords_eq_cons (Ne.symm hmasked.1) h
      rw [ih hrest hmasked.2]

end Mask

/-! ### The check of brackets from left to right -/

section Check

variable {puzzle : Puzzle} {text rest : List Char} {c : Char}

/-- One step of a check that is passed: a variable in brackets, or a character that is no part
of one. -/
theorem checkBrackets_cons_eq_ok (h : checkBrackets puzzle (c :: rest) = .ok ()) :
    (puzzle.isBracketLetter c = true ∧ ∃ distance after, isDistance distance = true ∧
      rest = '[' :: distance :: ']' :: after ∧ checkBrackets puzzle after = .ok ()) ∨
    (puzzle.isBracketLetter c = false ∧ c ≠ '[' ∧ c ≠ ']' ∧
      checkBrackets puzzle rest = .ok ()) := by
  rcases exists_part_or_fault puzzle c rest with ⟨part, after, htext, hpart⟩ | ⟨_, hfault⟩
  · rw [htext, hpart.checkBrackets_append] at h
    cases hpart with
    | «variable» hfamily hrange =>
        obtain ⟨rfl, rfl⟩ := List.cons.inj htext
        have hletter := (isBracketLetter_iff ..).2 ⟨_, hfamily, rfl⟩
        exact .inl ⟨hletter, _, after, (isDistance_iff _).2 hrange, rfl, h⟩
    | char hunlisted hopening hclosing =>
        obtain ⟨rfl, rfl⟩ := List.cons.inj htext
        exact .inr ⟨(isBracketLetter_eq_false_iff ..).2 hunlisted, hopening, hclosing, h⟩
  · rw [hfault.checkBrackets_eq] at h
    cases h

/-- A check that fails has passed a stretch in front. It quotes the start of what comes behind
that stretch, or what stands in the brackets there, if they hold anything but a distance. -/
theorem checkBrackets_eq_error {rejection : Rejection}
    (h : checkBrackets puzzle text = .error rejection) :
    ∃ front back, text = front ++ back ∧ checkBrackets puzzle front = .ok () ∧
      ((∃ fragment, fragment ≠ [] ∧ fragment <+: back ∧
        rejection = .malformedBracket (String.ofList fragment)) ∨
      ∃ letter content after, puzzle.isBracketLetter letter = true ∧
        back = letter :: '[' :: (content ++ ']' :: after) ∧ ']' ∉ content ∧
        isSingleDistance content = false ∧
        rejection = .invalidBracketContent (String.ofList content)) := by
  obtain ⟨front, back, htext, hfront, hfault⟩ := (checkBrackets_eq_error_iff ..).1 h
  exact ⟨front, back, htext, (checkBrackets_eq_ok_iff ..).2 hfront, hfault.quotes⟩

end Check

end HatCircle
