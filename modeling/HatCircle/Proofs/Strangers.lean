import HatCircle.Proofs.Legible
import HatCircle.Proofs.Rejections
import HatCircle.Puzzle.Kind

/-!
# Which characters are reported

In both puzzles one variable is a word. Its occurrences are taken from left to right, each behind
the one before (`Text.Taken`). A stranger is a character outside of them that is not allowed on
its own. If there are strangers, the check of characters reports them, each once and in the order
in which they first appear (`listsAt_strangers`): cutting out the word leaves the characters
outside of its taken occurrences, with their places in order (`exists_left`).

The lexer reads every text that gets past the checks before it, so no other report of characters
is ever made.
-/

namespace HatCircle

/-! ### Occurrences of a word from left to right -/

/-- An occurrence of the word is taken if it begins behind all those that are taken before it. -/
def Text.Taken (word text : List Char) (place : Nat) : Prop :=
  word <+: text.drop place ∧
    ∀ earlier < place, Text.Taken word text earlier → earlier + word.length ≤ place
termination_by place

/-- The place belongs to a taken occurrence of the word. -/
def Text.Covered (word text : List Char) (place : Nat) : Prop :=
  ∃ start, Text.Taken word text start ∧ start ≤ place ∧ place < start + word.length

section Left

variable {word text : List Char} {start : Nat}

/-- No occurrence that is taken before the place goes beyond it. -/
def Text.Cleared (word text : List Char) (start : Nat) : Prop :=
  ∀ earlier < start, Text.Taken word text earlier → earlier + word.length ≤ start

theorem taken_iff (h : Text.Cleared word text start) :
    Text.Taken word text start ↔ word <+: text.drop start := by
  rw [Text.Taken]
  exact and_iff_left h

/-- The place behind a taken occurrence is cleared. -/
theorem Text.Taken.cleared (h : Text.Taken word text start) :
    Text.Cleared word text (start + word.length) := by
  intro earlier hearlier htaken
  rcases Nat.lt_or_ge start earlier with hlt | hle
  · rw [Text.Taken] at htaken
    have := htaken.2 start hlt h
    omega
  · omega

theorem Text.Cleared.succ (h : Text.Cleared word text start)
    (hnot : ¬ Text.Taken word text start) : Text.Cleared word text (start + 1) := by
  intro earlier hearlier htaken
  rcases Nat.lt_succ_iff_lt_or_eq.1 hearlier with hlt | rfl
  · exact Nat.le_succ_of_le (h earlier hlt htaken)
  · exact absurd htaken hnot

theorem Text.Cleared.not_covered (h : Text.Cleared word text start)
    (hnot : ¬ Text.Taken word text start) : ¬ Text.Covered word text start := by
  rintro ⟨earlier, htaken, hle, hlt⟩
  rcases Nat.lt_or_eq_of_le hle with hbefore | rfl
  · have := h earlier hbefore htaken
    omega
  · exact hnot htaken

/-- The characters of a text, from a place on, that are outside of taken occurrences, with their
places in order. -/
structure Text.Left (word text : List Char) (start : Nat) (left : List (Nat × Char)) : Prop where
  sorted : left.Pairwise fun a b => a.1 < b.1
  mem_iff : ∀ place c, (place, c) ∈ left ↔
    start ≤ place ∧ text[place]? = some c ∧ ¬ Text.Covered word text place

namespace Text.Left

variable {left : List (Nat × Char)}

theorem nil (h : text.length ≤ start) : Text.Left word text start [] where
  sorted := .nil
  mem_iff place c := by
    constructor
    · intro hmem
      cases hmem
    · rintro ⟨hle, hget, -⟩
      rw [List.getElem?_eq_none (Nat.le_trans h hle)] at hget
      cases hget

theorem skip (h : Text.Left word text (start + word.length) left)
    (htaken : Text.Taken word text start) : Text.Left word text start left where
  sorted := h.sorted
  mem_iff place c := by
    rw [h.mem_iff]
    constructor
    · rintro ⟨hle, hat⟩
      exact ⟨by omega, hat⟩
    · rintro ⟨hle, hget, hout⟩
      refine ⟨?_, hget, hout⟩
      by_contra hinside
      exact hout ⟨start, htaken, hle, by omega⟩

theorem keep (h : Text.Left word text (start + 1) left) (hlt : start < text.length)
    (hout : ¬ Text.Covered word text start) :
    Text.Left word text start ((start, text[start]) :: left) where
  sorted := by
    refine List.pairwise_cons.2 ⟨?_, h.sorted⟩
    rintro ⟨place, c⟩ hentry
    exact ((h.mem_iff place c).1 hentry).1
  mem_iff place c := by
    rw [List.mem_cons, h.mem_iff, Prod.mk.injEq]
    constructor
    · rintro (⟨rfl, rfl⟩ | ⟨hle, hat⟩)
      · exact ⟨Nat.le_refl _, List.getElem?_eq_getElem hlt, hout⟩
      · exact ⟨by omega, hat⟩
    · rintro ⟨hle, hget, hnot⟩
      rcases Nat.lt_or_eq_of_le hle with hbehind | rfl
      · exact .inr ⟨hbehind, hget, hnot⟩
      · rw [List.getElem?_eq_getElem hlt] at hget
        exact .inl ⟨rfl, (Option.some.inj hget).symm⟩

end Text.Left

/-- Cutting out the word leaves the characters outside of its taken occurrences. -/
theorem exists_left (hword : word ≠ []) (hclear : Text.Cleared word text start) :
    ∃ left, Text.Left word text start left ∧
      left.map Prod.snd = Text.cutOut word (text.drop start) := by
  induction hn : text.length - start using Nat.strongRecOn generalizing start with
  | ind n hrec =>
      subst hn
      rcases Nat.lt_or_ge start text.length with hlt | hge
      · have hpos := List.length_pos_of_ne_nil hword
        by_cases htaken : Text.Taken word text start
        · obtain ⟨left, hleft, hcut⟩ := hrec _ (by omega) htaken.cleared rfl
          obtain ⟨tail, htail⟩ := (taken_iff hclear).1 htaken
          rw [← List.drop_drop, ← htail, List.drop_left] at hcut
          exact ⟨left, hleft.skip htaken, by rw [hcut, ← htail, cutOut_word_append hword]⟩
        · obtain ⟨left, hleft, hcut⟩ := hrec _ (by omega) (hclear.succ htaken) rfl
          have hdrop := List.drop_eq_getElem_cons hlt
          have hnone : ¬ word <+: text[start] :: text.drop (start + 1) := by
            rwa [← hdrop, ← taken_iff hclear]
          refine ⟨_, hleft.keep hlt (hclear.not_covered htaken), ?_⟩
          rw [hdrop, cutOut_cons_of_no_word hnone, List.map_cons, hcut]
      · refine ⟨[], .nil hge, ?_⟩
        rw [List.drop_eq_nil_of_le hge, Text.cutOut]
        rfl

end Left

/-! ### Characters in the order in which they appear -/

/-- What is found are the characters of the text at the chosen places, each once, and each before
all those that first appear behind it. -/
structure Text.ListsAt (text : List Char) (Chosen : Nat → Prop) (found : List Char) : Prop where
  nodup : found.Nodup
  mem_iff : ∀ c, c ∈ found ↔ ∃ place, Chosen place ∧ text[place]? = some c
  order : found.Pairwise fun a b => ∀ place, Chosen place → text[place]? = some b →
    ∃ earlier < place, Chosen earlier ∧ text[earlier]? = some a

/-- An entry that is kept stands before every occurrence of the entries kept behind it. -/
theorem pairwise_eraseDups {α : Type} [BEq α] [LawfulBEq α] (entries : List α) :
    entries.eraseDups.Pairwise fun a b =>
      ∀ front back, entries = front ++ b :: back → a ∈ front := by
  induction hn : entries.length using Nat.strongRecOn generalizing entries with
  | ind n hrec =>
      subst hn
      cases entries with
      | nil => exact .nil
      | cons x rest =>
          rw [List.eraseDups_cons, List.pairwise_cons]
          have hne : ∀ b ∈ (rest.filter fun y => !y == x).eraseDups, x ≠ b := by
            intro b hb heq
            rw [List.mem_eraseDups, List.mem_filter, heq] at hb
            simp at hb
          constructor
          · intro b hb front back heq
            cases front with
            | nil => exact absurd (List.cons.inj heq).1 (hne b hb)
            | cons y front => rw [(List.cons.inj heq).1]; exact List.mem_cons_self
          · have hlt : (rest.filter fun y => !y == x).length < (x :: rest).length :=
              Nat.lt_succ_of_le (List.length_filter_le ..)
            refine (hrec _ hlt _ rfl).imp_of_mem fun {a b} ha hb hbefore front back heq => ?_
            cases front with
            | nil => exact absurd (List.cons.inj heq).1 (hne b hb)
            | cons y front =>
                rw [List.cons_append, List.cons.injEq] at heq
                obtain ⟨rfl, rfl⟩ := heq
                have hkeep : (b :: back).filter (fun y => !y == x) =
                    b :: back.filter fun y => !y == x :=
                  List.filter_cons_of_pos (by simpa using (hne b hb).symm)
                rw [List.filter_append, hkeep] at hbefore
                exact List.mem_cons_of_mem _ (List.mem_of_mem_filter (hbefore _ _ rfl))

theorem nodup_eraseDups {α : Type} [BEq α] [LawfulBEq α] (entries : List α) :
    entries.eraseDups.Nodup := by
  refine (pairwise_eraseDups entries).imp_of_mem fun {a b} ha hb hbefore heq => ?_
  obtain ⟨front, back, hentries, hfirst⟩ := List.eq_append_cons_of_mem (List.mem_eraseDups.1 hb)
  exact hfirst (heq ▸ hbefore front back hentries)

section Lists

variable {text : List Char} {Chosen : Nat → Prop} {chosen : List (Nat × Char)}

theorem listsAt_eraseDups (hsorted : chosen.Pairwise fun a b => a.1 < b.1)
    (hmem : ∀ place c, (place, c) ∈ chosen ↔ Chosen place ∧ text[place]? = some c) :
    Text.ListsAt text Chosen (chosen.map Prod.snd).eraseDups where
  nodup := nodup_eraseDups _
  mem_iff c := by
    rw [List.mem_eraseDups, List.mem_map]
    constructor
    · rintro ⟨⟨place, _⟩, hentry, rfl⟩
      exact ⟨place, (hmem ..).1 hentry⟩
    · rintro ⟨place, hplace⟩
      exact ⟨(place, c), (hmem ..).2 hplace, rfl⟩
  order := by
    refine (pairwise_eraseDups _).imp fun {a b} hbefore place hplace hget => ?_
    obtain ⟨front, back, rfl⟩ := List.append_of_mem ((hmem place b).2 ⟨hplace, hget⟩)
    have ha := hbefore (front.map Prod.snd) (back.map Prod.snd) (by simp)
    obtain ⟨⟨earlier, _⟩, hfront, rfl⟩ := List.mem_map.1 ha
    have hlt := (List.pairwise_append.1 hsorted).2.2 _ hfront (place, b) List.mem_cons_self
    exact ⟨earlier, hlt, (hmem ..).1 (List.mem_append_left _ hfront)⟩

end Lists

/-! ### Strangers -/

/-- At the place stands a character that is in no taken occurrence of the word and is not allowed
on its own. -/
def Puzzle.StrangerAt (puzzle : Puzzle) (word text : List Char) (place : Nat) : Prop :=
  ¬ Text.Covered word text place ∧ ∃ c, text[place]? = some c ∧ puzzle.allows c = false

section Strangers

variable {puzzle : Puzzle} {word text : List Char}

theorem listsAt_strangers (hwords : puzzle.words = [word]) (hword : word ≠ []) :
    Text.ListsAt text (puzzle.StrangerAt word text) (puzzle.strangers text) := by
  have hclear : Text.Cleared word text 0 := fun _ hlt => absurd hlt (Nat.not_lt_zero _)
  obtain ⟨left, hleft, hcut⟩ := exists_left hword hclear
  have hstrangers : puzzle.strangers text =
      ((left.filter fun entry => !puzzle.allows entry.2).map Prod.snd).eraseDups := by
    rw [Puzzle.strangers, withoutWords_eq hwords, ← List.drop_zero (l := text), ← hcut,
      List.filter_map]
    rfl
  rw [hstrangers]
  refine listsAt_eraseDups (hleft.sorted.filter _) fun place c => ?_
  rw [List.mem_filter, hleft.mem_iff]
  constructor
  · rintro ⟨⟨-, hget, hout⟩, hnot⟩
    exact ⟨⟨hout, c, hget, by simpa using hnot⟩, hget⟩
  · rintro ⟨⟨hout, d, hd, hnot⟩, hget⟩
    obtain rfl := Option.some.inj (hd.symm.trans hget)
    exact ⟨⟨Nat.zero_le _, hget, hout⟩, by simpa using hnot⟩

theorem checkCharset_eq_error_iff (puzzle : Puzzle) (text : List Char) (rejection : Rejection) :
    checkCharset puzzle text = .error rejection ↔
      puzzle.strangers text ≠ [] ∧
        rejection = .invalidCharacters (String.ofList (puzzle.strangers text)) := by
  unfold checkCharset
  split
  · rename_i hnone
    simp [hnone]
  · rename_i hsome
    constructor
    · intro h
      exact ⟨hsome, (Except.error.inj h).symm⟩
    · rintro ⟨-, rfl⟩
      rfl

/-- The lexer stops in no text that gets to it, so it is the check of characters that reports. -/
theorem rejects_invalidCharacters_iff (wf : puzzle.WellFormed) (hwords : puzzle.words = [word])
    (grouped : Grouped text) {found : String} :
    puzzle.Rejects text (.invalidCharacters found) ↔
      checkCharset puzzle text = .error (.invalidCharacters found) := by
  constructor
  · intro h
    rcases h.of_characters rfl with hcharset | ⟨hlegible, error, hfault, -⟩
    · exact hcharset
    · obtain ⟨lexemes, hsplits⟩ := hlegible.exists_splits wf hwords
      cases ((lexAt_eq_ok_iff ..).2 hsplits).symm.trans hfault
  · exact .charset grouped

end Strangers

/-! ### The two puzzles -/

/-- The variable of more than one letter. -/
def PuzzleKind.word : PuzzleKind → String
  | .ten => "all"
  | .two => "other"

theorem PuzzleKind.words_eq (kind : PuzzleKind) : kind.puzzle.words = [kind.word.toList] := by
  cases kind with
  | ten => decide
  | two => decide

theorem PuzzleKind.wellFormed (kind : PuzzleKind) : kind.puzzle.WellFormed := by
  cases kind with
  | ten => exact Puzzle.wellFormed_ten
  | two => exact Puzzle.wellFormed_two

/-- Behind the checks of characters and brackets the lexer reads every text. So characters are
reported exactly if there are strangers, and the report lists these. -/
theorem check_lists_strangers (kind : PuzzleKind) {source : String} {text : List Char}
    (htext : Text.compact source.toList = text) (hgroups : checkParentheses text = .ok ()) :
    (checkCharset kind.puzzle text = .ok () →
      checkBrackets kind.puzzle (maskWords kind.puzzle text) = .ok () →
        ∃ lexemes, lex kind.puzzle text = .ok lexemes) ∧
    (∀ found, check kind.puzzle source = .error (.invalidCharacters found) ↔
      checkCharset kind.puzzle text = .error (.invalidCharacters found)) ∧
    ((∃ found, check kind.puzzle source = .error (.invalidCharacters found)) ↔
      ∃ place, kind.puzzle.StrangerAt kind.word.toList text place) ∧
    ∀ found, check kind.puzzle source = .error (.invalidCharacters found) →
      Text.ListsAt text (kind.puzzle.StrangerAt kind.word.toList text) found.toList := by
  have wf := kind.wellFormed
  have hwords := kind.words_eq
  have hword : kind.word.toList ≠ [] := wf.words_ne_nil (by simp [hwords])
  have hlists : Text.ListsAt text (kind.puzzle.StrangerAt kind.word.toList text)
      (kind.puzzle.strangers text) := listsAt_strangers hwords hword
  have hreport : ∀ found, check kind.puzzle source = .error (.invalidCharacters found) ↔
      checkCharset kind.puzzle text = .error (.invalidCharacters found) := by
    intro found
    rw [check_eq_error_iff, htext]
    exact rejects_invalidCharacters_iff wf hwords ((checkParentheses_eq_ok_iff text).1 hgroups)
  refine ⟨?_, hreport, ?_, ?_⟩
  · intro hcharset hbrackets
    obtain ⟨lexemes, hsplits⟩ := Puzzle.Legible.exists_splits wf hwords ⟨hcharset, hbrackets⟩
    exact ⟨lexemes, (lexAt_eq_ok_iff ..).2 hsplits⟩
  · simp only [hreport, checkCharset_eq_error_iff]
    constructor
    · rintro ⟨found, hne, -⟩
      obtain ⟨c, hc⟩ := List.exists_mem_of_ne_nil _ hne
      obtain ⟨place, hplace, -⟩ := (hlists.mem_iff c).1 hc
      exact ⟨place, hplace⟩
    · rintro ⟨place, hplace⟩
      obtain ⟨-, c, hget, -⟩ := id hplace
      exact ⟨_, List.ne_nil_of_mem ((hlists.mem_iff c).2 ⟨place, hplace, hget⟩), rfl⟩
  · intro found h
    obtain ⟨-, hfound⟩ := (checkCharset_eq_error_iff ..).1 ((hreport found).1 h)
    rw [Rejection.invalidCharacters.inj hfound, String.toList_ofList]
    exact hlists

/-- Of `alalll` the middle is the word. What is left around it spells the word as well, but is not
taken, so its `a` is a stranger and is listed behind the `x`. A text that is no formula for other
reasons is read to its end. -/
theorem check_lists_strangers_ten :
    (Text.compact "(x + al all l)×all a".toList = "(x+alalll)×alla".toList ∧
      checkParentheses "(x+alalll)×alla".toList = .ok () ∧
      check .ten "(x + al all l)×all a" = .error (.invalidCharacters "xa") ∧
      Text.ListsAt "(x+alalll)×alla".toList
        (Puzzle.ten.StrangerAt "all".toList "(x+alalll)×alla".toList) "xa".toList) ∧
    Text.compact "other i0 × (1 other)".toList = "otheri0×(1other)".toList ∧
      checkParentheses "otheri0×(1other)".toList = .ok () ∧
      checkCharset .two "otheri0×(1other)".toList = .ok () ∧
      checkBrackets .two (maskWords .two "otheri0×(1other)".toList) = .ok () ∧
      ∃ lexemes, lex .two "otheri0×(1other)".toList = .ok lexemes := by
  have htext : Text.compact "(x + al all l)×all a".toList = "(x+alalll)×alla".toList := by
    decide +kernel
  have hgroups : checkParentheses "(x+alalll)×alla".toList = .ok () := by decide +kernel
  have hcheck : check .ten "(x + al all l)×all a" = .error (.invalidCharacters "xa") := by
    decide +kernel
  have htext' : Text.compact "other i0 × (1 other)".toList = "otheri0×(1other)".toList := by
    decide +kernel
  have hgroups' : checkParentheses "otheri0×(1other)".toList = .ok () := by decide +kernel
  have hcharset : checkCharset .two "otheri0×(1other)".toList = .ok () := by decide +kernel
  have hbrackets : checkBrackets .two (maskWords .two "otheri0×(1other)".toList) = .ok () := by
    decide +kernel
  exact ⟨⟨htext, hgroups, hcheck, (check_lists_strangers .ten htext hgroups).2.2.2 _ hcheck⟩,
    htext', hgroups', hcharset, hbrackets,
    (check_lists_strangers .two htext' hgroups').1 hcharset hbrackets⟩

end HatCircle
