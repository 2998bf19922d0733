import HatCircle.Proofs.Brackets

/-!
# Legible texts split into lexemes

The checks of characters and of brackets each go over a text in their own way: one looks at what
is left when the words are cut out, the other at the text with its words masked, and the lexer
takes the longest name at each place. Where a puzzle has one word, the three agree on where the
words are. So a legible text begins with a lexeme and is legible behind it (`Continues`), until it
is used up (`Puzzle.Legible.exists_splits`).

With several words this fails: what the cut of one word brings together may be another word, and
it is cut out in its turn, but the lexer does not find it.
-/

namespace HatCircle

section Places

variable {puzzle : Puzzle} {word rest tail : List Char} {c : Char}

theorem cutOut_word_append (hword : word ≠ []) :
    Text.cutOut word (word ++ tail) = Text.cutOut word tail := by
  obtain ⟨c, rest, rfl⟩ := List.exists_cons_of_ne_nil hword
  rw [List.cons_append, Text.cutOut, if_pos (by simp)]
  simp

theorem cutOut_cons_of_no_word (h : ¬ word <+: c :: rest) :
    Text.cutOut word (c :: rest) = c :: Text.cutOut word rest := by
  rw [Text.cutOut, if_neg (by simpa using h)]

/-- To cut out the words is to cut out the word, if there is only one. -/
theorem withoutWords_eq (hwords : puzzle.words = [word]) (text : List Char) :
    puzzle.withoutWords text = Text.cutOut word text := by
  rw [Puzzle.withoutWords, hwords]
  rfl

/-- A name that is no word has one letter. -/
theorem Puzzle.WellFormed.eq_singleton_of_notMem_words (wf : puzzle.WellFormed)
    {entry : NamedVariable} (hentry : entry ∈ puzzle.vocabulary)
    (h : entry.name.toList ∉ puzzle.words) :
    ∃ letter, entry.name.toList = [letter] := by
  have hpos := List.length_pos_of_ne_nil (wf.words entry hentry).1
  have hle : ¬ 1 < entry.name.toList.length := fun hlt => h (mem_words_of_length hentry hlt)
  exact List.length_eq_one_iff.1 (by omega)

/-- An allowed character at which no name begins, and which is neither a bracket nor a letter of
brackets, is a digit or a mark. -/
theorem isMark_of_allows (hname : puzzle.nameAt? (c :: rest) = none)
    (hallowed : puzzle.allows c = true) (hletter : puzzle.isBracketLetter c = false)
    (hopening : c ≠ '[') (hclosing : c ≠ ']') (hdigit : c.isDigit = false) :
    isMark c = true := by
  have hnamed : (puzzle.vocabulary.any fun v => v.name.toList == [c]) = false := by
    rw [List.any_eq_false]
    intro entry hentry hbeq
    have heq : entry.name.toList = [c] := by simpa using hbeq
    refine (nameAt?_eq_none_iff ..).1 hname entry.name ⟨⟨entry, hentry, rfl⟩, rest, ?_⟩
    rw [heq]
    rfl
  simpa [Puzzle.allows, Puzzle.allowsDigit, Numeral.digit?, hdigit, hletter, hopening, hclosing,
    hnamed, isMark] using hallowed

end Places

namespace Puzzle.Legible

variable {puzzle : Puzzle} {word rest tail text : List Char} {c : Char}

/-! ### What is left of a legible text -/

theorem charset_iff (hwords : puzzle.words = [word]) :
    checkCharset puzzle text = .ok () ↔ ∀ c ∈ Text.cutOut word text, puzzle.allows c = true := by
  rw [checkCharset_eq_ok_iff, withoutWords_eq hwords]

/-- Behind a word the text is legible. -/
theorem behind_word (wf : puzzle.WellFormed) (hwords : puzzle.words = [word])
    (h : puzzle.Legible (word ++ tail)) : puzzle.Legible tail := by
  have hmem : word ∈ puzzle.words := by simp [hwords]
  have hne := wf.words_ne_nil hmem
  have hword : puzzle.wordAt? (word ++ tail) = some word := by
    rw [Puzzle.wordAt?, hwords, List.find?_cons_of_pos (by simp)]
  constructor
  · have hcharset := h.charset
    rwa [charset_iff hwords, cutOut_word_append hne, ← charset_iff hwords] at hcharset
  · have hbrackets := h.brackets
    rwa [maskWords_append_of_wordAt? hword, wf.checkBrackets_placeholder] at hbrackets

/-- What is behind a character that is no letter is looked at on its own. -/
theorem charset_behind (wf : puzzle.WellFormed) (hc : c.isAlpha = false) {front : List Char}
    (h : checkCharset puzzle (front ++ c :: tail) = .ok ()) :
    checkCharset puzzle tail = .ok () := by
  rw [checkCharset_eq_ok_iff, withoutWords_append_cons wf hc] at h
  rw [checkCharset_eq_ok_iff]
  exact fun d hd => h d (by simp [hd])

/-- A character at which no word begins is allowed. It is a bracket letter with a distance in
brackets, or no part of one, and the text behind is legible. -/
theorem cases_of_no_word (wf : puzzle.WellFormed) (hwords : puzzle.words = [word])
    (hword : ¬ word <+: c :: rest) (h : puzzle.Legible (c :: rest)) :
    puzzle.allows c = true ∧
      ((puzzle.isBracketLetter c = true ∧ ∃ distance tail, isDistance distance = true ∧
        rest = '[' :: distance :: ']' :: tail ∧ puzzle.Legible tail) ∨
      (puzzle.isBracketLetter c = false ∧ c ≠ '[' ∧ c ≠ ']' ∧ puzzle.Legible rest)) := by
  have hcharset := h.charset
  rw [charset_iff hwords, cutOut_cons_of_no_word hword, List.forall_mem_cons,
    ← charset_iff hwords] at hcharset
  obtain ⟨hallowed, hcharset⟩ := hcharset
  have hnone : puzzle.wordAt? (c :: rest) = none := by
    rw [Puzzle.wordAt?, hwords, List.find?_eq_none]
    simpa using hword
  have hbrackets := h.brackets
  rw [maskWords_cons_of_wordAt? hnone] at hbrackets
  refine ⟨hallowed, ?_⟩
  rcases checkBrackets_cons_eq_ok hbrackets with
    ⟨hletter, distance, after, hdistance, hmask, hafter⟩ | ⟨hletter, hopening, hclosing, hrest⟩
  · have hne : distance ≠ placeholder := by
      rintro rfl
      cases hdistance
    obtain ⟨_, rfl, hinside⟩ := exists_of_maskWords_eq_cons (by decide) hmask
    obtain ⟨_, rfl, hbehind⟩ := exists_of_maskWords_eq_cons hne hinside
    obtain ⟨tail, rfl, rfl⟩ := exists_of_maskWords_eq_cons (by decide) hbehind
    refine .inl ⟨hletter, distance, tail, hdistance, rfl, ?_, hafter⟩
    exact @charset_behind puzzle tail ']' wf (by decide) ['[', distance] hcharset
  · exact .inr ⟨hletter, hopening, hclosing, hcharset, hrest⟩

theorem behind_digits (wf : puzzle.WellFormed) (hwords : puzzle.words = [word])
    {digits : List Char} (hdigits : ∀ c ∈ digits, c.isDigit = true)
    (h : puzzle.Legible (digits ++ tail)) : puzzle.Legible tail := by
  have hmem : word ∈ puzzle.words := by simp [hwords]
  induction digits with
  | nil => exact h
  | cons c digits ih =>
      rw [List.forall_mem_cons] at hdigits
      have halpha := isAlpha_of_isDigit hdigits.1
      have hword := not_prefix_cons (wf.words_ne_nil hmem) (wf.not_mem_word hmem halpha)
      rcases (cases_of_no_word wf hwords (hword _) h).2 with ⟨hletter, -⟩ | ⟨-, -, -, hrest⟩
      · rw [wf.isBracketLetter_of_not_isAlpha halpha] at hletter
        cases hletter
      · exact ih hdigits.2 hrest

/-! ### A legible text begins with a lexeme -/

/-- The text `c :: rest` begins with a lexeme, and behind the lexeme it is legible. -/
def Continues (puzzle : Puzzle) (c : Char) (rest : List Char) : Prop :=
  ∃ lexeme tail, Lexeme.first? puzzle c rest = some lexeme ∧
    c :: rest = lexeme.text.toList ++ tail ∧ puzzle.Legible tail

theorem continues_of_name (wf : puzzle.WellFormed) (hwords : puzzle.words = [word])
    (h : puzzle.Legible (c :: rest)) {name : String}
    (hname : puzzle.nameAt? (c :: rest) = some name) : Continues puzzle c rest := by
  have hfirst : Lexeme.first? puzzle c rest = some (.token (.variable name)) := by
    rw [Lexeme.first?, hname]
  obtain ⟨⟨⟨entry, hentry, rfl⟩, tail, htail⟩, hlongest⟩ := (nameAt?_eq_some_iff ..).1 hname
  refine ⟨_, tail, hfirst, htail.symm, ?_⟩
  have hmem : word ∈ puzzle.words := by simp [hwords]
  by_cases hlisted : entry.name.toList ∈ puzzle.words
  · obtain rfl : entry.name.toList = word := by simpa [hwords] using hlisted
    rw [← htail] at h
    exact h.behind_word wf hwords
  · obtain ⟨letter, hletter⟩ := wf.eq_singleton_of_notMem_words hentry hlisted
    have hlength : entry.name.length = 1 := by rw [← String.length_toList, hletter]; rfl
    rw [hletter] at htail
    obtain ⟨rfl, rfl⟩ := List.cons.inj htail
    -- a word here would be longer than the longest name, or it would be the letter
    have hword : ¬ word <+: letter :: tail := by
      intro hpre
      obtain ⟨other, hother, -, rfl⟩ := (mem_words_iff ..).1 hmem
      have hne := wf.words_ne_nil hmem
      have hle : other.name.length ≤ 1 := by
        rw [← hlength]
        exact hlongest _ ⟨⟨other, hother, rfl⟩, hpre⟩
      rw [← String.length_toList] at hle
      have hshort : other.name.toList <+: [letter] :=
        List.prefix_of_prefix_length_le hpre (List.prefix_append [letter] tail) hle
      have heq := hshort.eq_of_length_le (List.length_pos_of_ne_nil hne)
      exact hlisted (by rwa [hletter, ← heq])
    rcases (cases_of_no_word wf hwords hword h).2 with ⟨hfamily, -⟩ | ⟨-, -, -, hrest⟩
    · obtain ⟨family, hmem, rfl⟩ := (isBracketLetter_iff ..).1 hfamily
      exact absurd hletter ((wf.letters family hmem).2 entry hentry)
    · exact hrest

theorem continues_of_no_name (wf : puzzle.WellFormed) (hwords : puzzle.words = [word])
    (h : puzzle.Legible (c :: rest)) (hname : puzzle.nameAt? (c :: rest) = none) :
    Continues puzzle c rest := by
  have hmem : word ∈ puzzle.words := by simp [hwords]
  have hword : ¬ word <+: c :: rest := by
    intro hpre
    obtain ⟨entry, hentry, -, rfl⟩ := (mem_words_iff ..).1 hmem
    exact (nameAt?_eq_none_iff ..).1 hname _ ⟨⟨entry, hentry, rfl⟩, hpre⟩
  obtain ⟨hallowed, hletter | ⟨hletter, hopening, hclosing, hrest⟩⟩ :=
    cases_of_no_word wf hwords hword h
  · obtain ⟨hletter, distance, tail, hdistance, rfl, htail⟩ := hletter
    have hbracket := (bracketAt?_eq_some_iff puzzle (c :: '[' :: distance :: ']' :: tail) _).2
      ⟨c, distance, ⟨tail, rfl⟩, hdistance, hletter, rfl⟩
    refine ⟨_, tail, by rw [Lexeme.first?, hname, hbracket], ?_, htail⟩
    simp [Lexeme.text, Token.text]
  · have hbracket : puzzle.bracketAt? (c :: rest) = none := by
      rw [Option.eq_none_iff_forall_not_mem]
      intro name hfound
      obtain ⟨letter, distance, hpre, -, hfamily, -⟩ := (bracketAt?_eq_some_iff ..).1 hfound
      rw [← (List.cons_prefix_cons.1 hpre).1, hfamily] at hletter
      cases hletter
    cases hdigit : c.isDigit with
    | true =>
        refine ⟨.token (.number (String.ofList (c :: rest.takeWhile Char.isDigit))),
          rest.dropWhile Char.isDigit, ?_, ?_, ?_⟩
        · rw [Lexeme.first?, hname, hbracket]
          simp [hdigit]
        · simp [Lexeme.text, Token.text, List.takeWhile_append_dropWhile]
        · rw [← List.takeWhile_append_dropWhile (p := Char.isDigit) (l := rest)] at hrest
          exact behind_digits wf hwords (fun d hd => List.mem_takeWhile_imp hd) hrest
    | false =>
        have hmark := isMark_of_allows hname hallowed hletter hopening hclosing hdigit
        have hfirst := first?_mark wf.unmarked hmark rest
        rcases isMark_cases hmark with rfl | rfl | ⟨op, rfl⟩
        · exact ⟨_, rest, hfirst, rfl, hrest⟩
        · exact ⟨_, rest, hfirst, rfl, hrest⟩
        · refine ⟨.token (.operator op), rest, ?_, by simp, hrest⟩
          rw [hfirst]
          cases op <;> rfl

/-- The lexer reads a legible text to its end. -/
theorem exists_splits (wf : puzzle.WellFormed) (hwords : puzzle.words = [word])
    (h : puzzle.Legible text) : ∃ lexemes, Splits puzzle text lexemes := by
  induction hn : text.length using Nat.strongRecOn generalizing text with
  | ind n hrec =>
      subst hn
      cases text with
      | nil => exact ⟨[], .nil⟩
      | cons c rest =>
          have hcontinues : Continues puzzle c rest := by
            cases hname : puzzle.nameAt? (c :: rest) with
            | some name => exact continues_of_name wf hwords h hname
            | none => exact continues_of_no_name wf hwords h hname
          obtain ⟨lexeme, tail, hfirst, htext, htail⟩ := hcontinues
          have hshorter : tail.length < (c :: rest).length := by
            have hnames := fun entry hentry => (wf.unmarked.names entry hentry).1
            have hpos := List.length_pos_of_ne_nil ((first?_eq_some hfirst).1.text_ne_nil hnames)
            rw [htext, List.length_append]
            omega
          obtain ⟨lexemes, hlexemes⟩ := hrec _ hshorter htail rfl
          exact ⟨lexeme :: lexemes, .cons hfirst htext hlexemes⟩

end Puzzle.Legible

end HatCircle
