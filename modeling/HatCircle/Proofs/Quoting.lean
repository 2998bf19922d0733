import HatCircle.Proofs.Brackets
import HatCircle.Proofs.Rejections

/-!
# What a reason about brackets quotes

A reason about brackets quotes the masked text. What it quotes is the masked form of a stretch
of the text: of what stands in the brackets of a bracket letter (`exists_encloses_of_content`),
or of what begins at the fault (`exists_infix_of_fragment`).

The placeholder is no character of a formula, so it stands nowhere in a text that gets as far as
the check of brackets. There the quoted characters stand as they are exactly if the stretch
holds no word (`maskWords_eq_self_iff`). Of ten people, a formula that has `all` in its brackets
is told that the content was the placeholder (`check_masks_quotes`).
-/

namespace HatCircle

/-- The content stands in the text between brackets behind a bracket letter of the puzzle. -/
def Puzzle.Encloses (puzzle : Puzzle) (text content : List Char) : Prop :=
  ∃ family ∈ puzzle.brackets, family.letter :: '[' :: (content ++ [']']) <:+: text

instance (puzzle : Puzzle) (text content : List Char) :
    Decidable (puzzle.Encloses text content) :=
  inferInstanceAs (Decidable (∃ family ∈ puzzle.brackets, _))

/-! ### Where the placeholder stands -/

section Mask

variable {puzzle : Puzzle} {text : List Char}

/-- A text with the placeholder in it has a character that is not allowed. -/
theorem Puzzle.WellFormed.placeholder_notMem (wf : puzzle.WellFormed)
    (h : checkCharset puzzle text = .ok ()) : placeholder ∉ text := by
  intro hmem
  have halpha : placeholder.isAlpha = false := by decide
  have hallows := (checkCharset_eq_ok_iff puzzle text).1 h _ (mem_withoutWords wf halpha hmem)
  have hletter := wf.isBracketLetter_of_not_isAlpha halpha
  have hnamed := wf.not_named_of_not_isAlpha halpha
  have hdigit : puzzle.allowsDigit placeholder = false := rfl
  rw [Puzzle.allows, hletter, hnamed, hdigit] at hallows
  simp [placeholder, isOperator, Operator.ofChar?] at hallows

theorem placeholder_mem_maskWords_iff (h : placeholder ∉ text) :
    placeholder ∈ maskWords puzzle text ↔ ∃ word ∈ puzzle.words, word <:+: text := by
  fun_induction maskWords puzzle text with
  | case1 =>
      constructor
      · intro hmem
        cases hmem
      · rintro ⟨word, hword, hinfix⟩
        exact absurd (List.eq_nil_of_infix_nil hinfix) (ne_nil_of_mem_words hword)
  | case2 c rest word hword _ =>
      obtain ⟨hmem, hpre⟩ := mem_words_of_wordAt? hword
      exact iff_of_true List.mem_cons_self ⟨word, hmem, hpre.isInfix⟩
  | case3 c rest hnone ih =>
      rw [List.mem_cons, not_or] at h
      rw [List.mem_cons, or_iff_right h.1, ih h.2]
      refine exists_congr fun word => and_congr_right fun hword => ?_
      have hnot : ¬ word <+: c :: rest := by
        have hfirst := List.find?_eq_none.1 hnone word hword
        rwa [List.isPrefixOf_iff_prefix] at hfirst
      rw [List.infix_cons_iff, or_iff_right hnot]

/-- Masking changes a text exactly if a word occurs in it. -/
theorem maskWords_eq_self_iff (h : placeholder ∉ text) :
    maskWords puzzle text = text ↔ ∀ word ∈ puzzle.words, ¬ word <:+: text := by
  have hmask := @placeholder_mem_maskWords_iff puzzle text h
  constructor
  · intro heq word hword hinfix
    rw [heq] at hmask
    exact h (hmask.2 ⟨word, hword, hinfix⟩)
  · intro hnone
    refine (eq_of_maskWords_eq rfl fun hmem => ?_).symm
    obtain ⟨word, hword, hinfix⟩ := hmask.1 hmem
    exact hnone word hword hinfix

end Mask

/-! ### What is quoted -/

section Quotes

variable {puzzle : Puzzle} {text : List Char} {quoted : String}

/-- The content that is refused is the masked form of what stands in brackets. -/
theorem exists_encloses_of_content (wf : puzzle.WellFormed)
    (h : checkBrackets puzzle (maskWords puzzle text) = .error (.invalidBracketContent quoted)) :
    isSingleDistance quoted.toList = false ∧
      ∃ inside, puzzle.Encloses text inside ∧ maskWords puzzle inside = quoted.toList := by
  obtain ⟨front, back, hmask, -, hfault⟩ := checkBrackets_eq_error h
  rcases hfault with ⟨_, -, -, hquoted⟩ | ⟨letter, content, after, hletter, rfl, -, hwrong, hquoted⟩
  · cases hquoted
  obtain rfl := Rejection.invalidBracketContent.inj hquoted
  obtain ⟨family, hfamily, rfl⟩ := (isBracketLetter_iff ..).1 hletter
  have hne : family.letter ≠ placeholder :=
    ne_of_isAlpha (wf.letters family hfamily).1 (by decide)
  -- the masked text is taken apart from left to right, and the text with it
  obtain ⟨before, _, rfl, -, hletter⟩ := exists_of_maskWords_eq_append hmask
  obtain ⟨_, rfl, hopening⟩ := exists_of_maskWords_eq_cons hne hletter
  obtain ⟨_, rfl, hcontent⟩ := exists_of_maskWords_eq_cons (by decide) hopening
  obtain ⟨inside, _, rfl, hinside, hclosing⟩ := exists_of_maskWords_eq_append hcontent
  obtain ⟨rest, rfl, -⟩ := exists_of_maskWords_eq_cons (by decide) hclosing
  rw [String.toList_ofList]
  exact ⟨hwrong, inside, ⟨family, hfamily, before, rest, by simp⟩, hinside⟩

/-- The fragment that is reported is the masked form of a stretch of the text. -/
theorem exists_infix_of_fragment
    (h : checkBrackets puzzle (maskWords puzzle text) = .error (.malformedBracket quoted)) :
    ∃ stretch, stretch <:+: text ∧ maskWords puzzle stretch = quoted.toList := by
  obtain ⟨front, back, hmask, -, hfault⟩ := checkBrackets_eq_error h
  rcases hfault with ⟨fragment, -, ⟨rest, rfl⟩, hquoted⟩ | ⟨_, _, _, -, -, -, -, hquoted⟩
  · obtain rfl := Rejection.malformedBracket.inj hquoted
    obtain ⟨before, after, rfl, -, hafter⟩ := exists_of_maskWords_eq_append hmask
    obtain ⟨stretch, after, rfl, hstretch, -⟩ := exists_of_maskWords_eq_append hafter
    rw [String.toList_ofList]
    exact ⟨stretch, ⟨before, after, by simp⟩, hstretch⟩
  · cases hquoted

theorem Puzzle.Encloses.subset {content : List Char} (h : puzzle.Encloses text content) :
    content ⊆ text := by
  obtain ⟨family, -, hinfix⟩ := h
  intro c hc
  exact hinfix.subset (by simp [hc])

/-- Whichever way a stretch stands in a text without the placeholder, its masked form stands
there in that way exactly if no word occurs in the stretch. -/
theorem stands_mask_iff {Stands : List Char → Prop} (hsubset : ∀ part, Stands part → part ⊆ text)
    (htext : placeholder ∉ text) {stretch : List Char} (hstretch : Stands stretch) :
    Stands (maskWords puzzle stretch) ↔ ∀ word ∈ puzzle.words, ¬ word <:+: stretch := by
  have hnot : placeholder ∉ stretch := fun hmem => htext (hsubset _ hstretch hmem)
  constructor
  · intro hmask word hword hoccurs
    have hmem := (placeholder_mem_maskWords_iff hnot).2 ⟨word, hword, hoccurs⟩
    exact htext (hsubset _ hmask hmem)
  · intro hnone
    rwa [(maskWords_eq_self_iff hnot).2 hnone]

end Quotes

/-- For ten people, a reason about brackets quotes a stretch of the text in which each `all` is
masked: a content that is no distance, from brackets behind a letter of brackets, or what stands
at the fault. The text holds what is quoted exactly if there is no `all` in the stretch. -/
theorem check_quotes_masked (source : String) :
    (∀ content, check .ten source = .error (.invalidBracketContent content) →
      isSingleDistance content.toList = false ∧
      ∃ inside, Puzzle.ten.Encloses (Text.compact source.toList) inside ∧
        maskWords .ten inside = content.toList ∧
        (Puzzle.ten.Encloses (Text.compact source.toList) content.toList ↔
          ¬ "all".toList <:+: inside)) ∧
    ∀ fragment, check .ten source = .error (.malformedBracket fragment) →
      ∃ stretch, stretch <:+: Text.compact source.toList ∧
        maskWords .ten stretch = fragment.toList ∧
        (fragment.toList <:+: Text.compact source.toList ↔ ¬ "all".toList <:+: stretch) := by
  have wf := Puzzle.wellFormed_ten
  have hword : ∀ stretch : List Char,
      (∀ word ∈ Puzzle.ten.words, ¬ word <:+: stretch) ↔ ¬ "all".toList <:+: stretch := by
    intro stretch
    have hwords : Puzzle.ten.words = ["all".toList] := by decide
    rw [hwords, List.forall_mem_singleton]
  generalize htext : Text.compact source.toList = text
  constructor
  · intro content h
    rw [check_eq_error_iff, htext] at h
    obtain ⟨hcharset, hbrackets⟩ := h.of_brackets rfl
    obtain ⟨hwrong, inside, hinside, hmask⟩ := exists_encloses_of_content wf hbrackets
    refine ⟨hwrong, inside, hinside, hmask, ?_⟩
    rw [← hmask, stands_mask_iff (fun _ => Puzzle.Encloses.subset)
      (wf.placeholder_notMem hcharset) hinside, hword]
  · intro fragment h
    rw [check_eq_error_iff, htext] at h
    obtain ⟨hcharset, hbrackets⟩ := h.of_brackets rfl
    obtain ⟨stretch, hstretch, hmask⟩ := exists_infix_of_fragment hbrackets
    refine ⟨stretch, hstretch, hmask, ?_⟩
    rw [← hmask, stands_mask_iff (fun _ => List.IsInfix.subset)
      (wf.placeholder_notMem hcharset) hstretch, hword]

/-- A word is quoted neither from between brackets nor from behind a bracket letter: what is
reported does not stand in the text. -/
theorem check_masks_quotes :
    (check .ten "l[all]" = .error (.invalidBracketContent "#") ∧
      ¬ Puzzle.ten.Encloses (Text.compact "l[all]".toList) "#".toList) ∧
    check .ten "lall" = .error (.malformedBracket "l#") ∧
      ¬ "l#".toList <:+: Text.compact "lall".toList := by
  decide +kernel

/-- A content of two digits is quoted as it stands. A content with a word in it and a bracket that
stays open behind a word are quoted with the word masked. -/
theorem check_quotes_masked_ten :
    (check .ten "i × l[1 2]" = .error (.invalidBracketContent "12") ∧
      isSingleDistance "12".toList = false ∧
      Puzzle.ten.Encloses (Text.compact "i × l[1 2]".toList) "12".toList) ∧
    (check .ten "2 + r[all - 1]" = .error (.invalidBracketContent "#-1") ∧
      ∃ inside, Puzzle.ten.Encloses (Text.compact "2 + r[all - 1]".toList) inside ∧
        maskWords .ten inside = "#-1".toList ∧ "all".toList <:+: inside) ∧
    check .ten "2 - r[all" = .error (.malformedBracket "r[#") ∧
      ∃ stretch, stretch <:+: Text.compact "2 - r[all".toList ∧
        maskWords .ten stretch = "r[#".toList ∧ "all".toList <:+: stretch := by
  have hliteral : check .ten "i × l[1 2]" = .error (.invalidBracketContent "12") := by
    decide +kernel
  have hmasked : check .ten "2 + r[all - 1]" = .error (.invalidBracketContent "#-1") := by
    decide +kernel
  have hopen : check .ten "2 - r[all" = .error (.malformedBracket "r[#") := by decide +kernel
  obtain ⟨hwrong, -, -, -, -⟩ := (check_quotes_masked "i × l[1 2]").1 _ hliteral
  obtain ⟨inside, hinside, hmask, hquote⟩ :=
    ((check_quotes_masked "2 + r[all - 1]").1 _ hmasked).2
  obtain ⟨stretch, hstretch, hmask', hquote'⟩ := (check_quotes_masked "2 - r[all").2 _ hopen
  refine ⟨⟨hliteral, hwrong, by decide +kernel⟩, ⟨hmasked, inside, hinside, hmask, ?_⟩,
    hopen, stretch, hstretch, hmask', ?_⟩
  · by_contra hnone
    exact absurd (hquote.2 hnone) (by decide +kernel)
  · by_contra hnone
    exact absurd (hquote'.2 hnone) (by decide +kernel)

end HatCircle
