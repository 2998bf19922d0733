import HatCircle.Proofs.BracketParts

/-!
# What the checks of characters let through

Before a text is split, its words are cut out and each remaining character is looked at
on its own; then its words are masked and its brackets are looked at. Both passes touch
names only, so a character that is no letter divides their work: what they make of a text
is what they make of its two sides (`withoutWords_append_cons`, `maskWords_append_cons`).

`Legible` says that both passes find no fault. In a well-formed puzzle the text of every
phrase is legible (`Phrase.legible_text`): its numbers and variables are, and the marks
between them divide the text.
-/

namespace HatCircle

/-! ### One word cut out -/

section CutOut

variable {word front back text : List Char} {c : Char}

theorem not_prefix_cons (hword : word ≠ []) (hc : c ∉ word) (text : List Char) :
    ¬ word <+: c :: text := by
  intro h
  obtain ⟨d, word, rfl⟩ := List.exists_cons_of_ne_nil hword
  rw [(List.cons_prefix_cons.1 h).1] at hc
  simp at hc

/-- What is left behind a word in front is the same on both sides of a character that the
word does not hold. -/
theorem drop_append_cons {d : Char} (h : word <+: d :: front) :
    (front ++ c :: back).drop (word.length - 1) =
      front.drop (word.length - 1) ++ c :: back := by
  have hlength := h.length_le
  rw [List.length_cons] at hlength
  exact List.drop_append_of_le_length (by omega)

theorem cutOut_append_cons (hword : word ≠ []) (hc : c ∉ word) :
    Text.cutOut word (front ++ c :: back) =
      Text.cutOut word front ++ c :: Text.cutOut word back := by
  fun_induction Text.cutOut word front with
  | case1 =>
      have hnot := not_prefix_cons hword hc back
      rw [List.nil_append, Text.cutOut, if_neg (by simpa using hnot)]
      rfl
  | case2 d front hpre ih =>
      rw [List.isPrefixOf_iff_prefix] at hpre
      have hlong : word <+: d :: (front ++ c :: back) :=
        (prefix_append_cons_iff hc (d :: front) back).2 hpre
      rw [List.cons_append, Text.cutOut, if_pos (by simpa using hlong),
        drop_append_cons hpre, ih]
  | case3 d front hpre ih =>
      rw [List.isPrefixOf_iff_prefix] at hpre
      have hlong : ¬ word <+: d :: (front ++ c :: back) := fun h =>
        hpre ((prefix_append_cons_iff hc (d :: front) back).1 h)
      rw [List.cons_append, Text.cutOut, if_neg (by simpa using hlong), ih]
      rfl

theorem mem_of_mem_cutOut (h : c ∈ Text.cutOut word text) : c ∈ text := by
  fun_induction Text.cutOut word text with
  | case1 => exact h
  | case2 d rest _ ih => exact List.mem_cons_of_mem d (List.mem_of_mem_drop (ih h))
  | case3 d rest _ ih =>
      rcases List.mem_cons.1 h with rfl | h
      · exact List.mem_cons_self
      · exact List.mem_cons_of_mem d (ih h)

theorem cutOut_self (hword : word ≠ []) : Text.cutOut word word = [] := by
  obtain ⟨c, rest, rfl⟩ := List.exists_cons_of_ne_nil hword
  rw [Text.cutOut, if_pos (by simp)]
  simp [Text.cutOut]

/-- A word that is not shorter than the text is cut out of it only if it is the text. -/
theorem cutOut_of_length_le (hlength : text.length ≤ word.length) (hne : word ≠ text) :
    Text.cutOut word text = text := by
  induction text with
  | nil => simp only [Text.cutOut]
  | cons c rest ih =>
      rw [List.length_cons] at hlength
      have hnot : ¬ word <+: c :: rest := fun h => hne (h.eq_of_length_le (by simpa using hlength))
      have hrest : word ≠ rest := by
        rintro rfl
        omega
      rw [Text.cutOut, if_neg (by simpa using hnot), ih (by omega) hrest]

end CutOut

/-! ### The words of a puzzle -/

theorem mem_words_iff (puzzle : Puzzle) (word : List Char) :
    word ∈ puzzle.words ↔
      ∃ entry ∈ puzzle.vocabulary, 1 < entry.name.utf8ByteSize ∧ entry.name.toList = word := by
  simp only [Puzzle.words, List.mem_map, List.mem_filter, decide_eq_true_eq]
  constructor
  · rintro ⟨name, ⟨⟨entry, hentry, rfl⟩, hsize⟩, rfl⟩
    exact ⟨entry, hentry, hsize, rfl⟩
  · rintro ⟨entry, hentry, hsize, rfl⟩
    exact ⟨entry.name, ⟨⟨entry, hentry, rfl⟩, hsize⟩, rfl⟩

theorem mem_words_of_length {puzzle : Puzzle} {entry : NamedVariable}
    (hentry : entry ∈ puzzle.vocabulary) (hlength : 1 < entry.name.toList.length) :
    entry.name.toList ∈ puzzle.words := by
  have hsize := length_le_utf8ByteSize entry.name
  rw [String.length_toList] at hlength
  exact (mem_words_iff ..).2 ⟨entry, hentry, by omega, rfl⟩

namespace Puzzle.WellFormed

variable {puzzle : Puzzle}

theorem words_ne_nil (wf : puzzle.WellFormed) {word : List Char} (h : word ∈ puzzle.words) :
    word ≠ [] := by
  obtain ⟨entry, hentry, -, rfl⟩ := (mem_words_iff ..).1 h
  exact (wf.words entry hentry).1

theorem not_mem_word (wf : puzzle.WellFormed) {word : List Char} (h : word ∈ puzzle.words)
    {c : Char} (hc : c.isAlpha = false) : c ∉ word := by
  obtain ⟨entry, hentry, -, rfl⟩ := (mem_words_iff ..).1 h
  intro hmem
  exact ne_of_isAlpha ((wf.words entry hentry).2 c hmem) hc rfl

theorem words_longestFirst (wf : puzzle.WellFormed) :
    puzzle.words.Pairwise fun a b => b.length ≤ a.length := by
  have hnames : (puzzle.vocabulary.map (·.name)).Pairwise fun a b => b.length ≤ a.length :=
    List.pairwise_map.2 wf.longestFirst
  refine List.pairwise_map.2 ((hnames.filter _).imp ?_)
  intro a b hab
  rwa [String.length_toList, String.length_toList]

end Puzzle.WellFormed

/-! ### All words cut out -/

section WithoutWords

variable {puzzle : Puzzle} {front back text : List Char} {c : Char}

theorem withoutWords_append_cons (wf : puzzle.WellFormed) (hc : c.isAlpha = false) :
    puzzle.withoutWords (front ++ c :: back) =
      puzzle.withoutWords front ++ c :: puzzle.withoutWords back := by
  have hwords : ∀ word ∈ puzzle.words, word ≠ [] ∧ c ∉ word := fun word hword =>
    ⟨wf.words_ne_nil hword, wf.not_mem_word hword hc⟩
  unfold Puzzle.withoutWords
  generalize puzzle.words = words at hwords
  induction words generalizing front back with
  | nil => rfl
  | cons word words ih =>
      obtain ⟨hne, hnot⟩ := hwords word (by simp)
      simp only [List.foldl_cons]
      rw [cutOut_append_cons hne hnot, ih fun other hother => hwords other (by simp [hother])]

theorem mem_of_mem_withoutWords (h : c ∈ puzzle.withoutWords text) : c ∈ text := by
  unfold Puzzle.withoutWords at h
  generalize puzzle.words = words at h
  induction words generalizing text with
  | nil => exact h
  | cons word words ih => exact mem_of_mem_cutOut (ih h)

/-- A character that is no letter is still there when the words are cut out. -/
theorem mem_withoutWords (wf : puzzle.WellFormed) (hc : c.isAlpha = false) (h : c ∈ text) :
    c ∈ puzzle.withoutWords text := by
  obtain ⟨front, back, rfl⟩ := List.append_of_mem h
  rw [withoutWords_append_cons wf hc]
  simp

theorem withoutWords_nil : puzzle.withoutWords [] = [] := by
  rw [List.eq_nil_iff_forall_not_mem]
  intro c hc
  exact absurd (mem_of_mem_withoutWords hc) (by simp)

/-- Nothing is left of a word: the words before it in the table are not shorter, so none
of them occurs in it. -/
theorem withoutWords_word (wf : puzzle.WellFormed) (h : text ∈ puzzle.words) :
    puzzle.withoutWords text = [] := by
  have hne : text ≠ [] := wf.words_ne_nil h
  have hsorted := wf.words_longestFirst
  have hrest : ∀ words : List (List Char),
      words.foldl (fun remaining word => Text.cutOut word remaining) [] = [] := by
    intro words
    induction words with
    | nil => rfl
    | cons word words ih => simpa [Text.cutOut] using ih
  unfold Puzzle.withoutWords
  generalize puzzle.words = words at h hsorted
  induction words with
  | nil => cases h
  | cons word words ih =>
      obtain ⟨hlonger, hsorted⟩ := List.pairwise_cons.1 hsorted
      simp only [List.foldl_cons]
      by_cases heq : word = text
      · rw [heq, cutOut_self hne, hrest]
      · have hmem : text ∈ words := by simpa [Ne.symm heq] using h
        rw [cutOut_of_length_le (hlonger text hmem) heq, ih hmem hsorted]

theorem checkCharset_eq_ok_iff (puzzle : Puzzle) (text : List Char) :
    checkCharset puzzle text = .ok () ↔
      ∀ c ∈ puzzle.withoutWords text, puzzle.allows c = true := by
  have hnil : puzzle.strangers text = [] ↔
      ∀ c ∈ puzzle.withoutWords text, puzzle.allows c = true := by
    rw [List.eq_nil_iff_forall_not_mem]
    simp [Puzzle.strangers, List.mem_eraseDups]
  rw [← hnil]
  unfold checkCharset
  constructor
  · intro h
    split at h
    · assumption
    · cases h
  · intro h
    rw [h]

end WithoutWords

/-! ### Words masked -/

section Mask

variable {puzzle : Puzzle} {front back text : List Char} {c : Char}

theorem mem_words_of_wordAt? {word : List Char} (h : puzzle.wordAt? text = some word) :
    word ∈ puzzle.words ∧ word <+: text := by
  refine ⟨List.mem_of_find?_eq_some h, ?_⟩
  simpa using List.find?_some h

/-- A character that is no letter ends every word before it. -/
theorem wordAt?_append_cons (wf : puzzle.WellFormed) (hc : c.isAlpha = false)
    (front back : List Char) :
    puzzle.wordAt? (front ++ c :: back) = puzzle.wordAt? front := by
  unfold Puzzle.wordAt?
  rw [← List.head?_filter, ← List.head?_filter]
  congr 1
  refine List.filter_congr fun word hword => ?_
  rw [Bool.eq_iff_iff, List.isPrefixOf_iff_prefix, List.isPrefixOf_iff_prefix]
  exact prefix_append_cons_iff (wf.not_mem_word hword hc) front back

theorem wordAt?_cons (wf : puzzle.WellFormed) (hc : c.isAlpha = false) :
    puzzle.wordAt? (c :: text) = none := by
  rw [Option.eq_none_iff_forall_not_mem]
  intro word hword
  obtain ⟨hmem, hpre⟩ := mem_words_of_wordAt? hword
  exact not_prefix_cons (wf.words_ne_nil hmem) (wf.not_mem_word hmem hc) text hpre

/-- A word in a bracket letter would be that letter, and no name is. -/
theorem wordAt?_letter (wf : puzzle.WellFormed) {family : BracketFamily}
    (hfamily : family ∈ puzzle.brackets) : puzzle.wordAt? [family.letter] = none := by
  rw [Option.eq_none_iff_forall_not_mem]
  intro word hword
  obtain ⟨hmem, hpre⟩ := mem_words_of_wordAt? hword
  obtain ⟨entry, hentry, -, hname⟩ := (mem_words_iff ..).1 hmem
  refine (wf.letters family hfamily).2 entry hentry (hname.trans ?_)
  rcases List.prefix_cons_iff.1 hpre with hnil | ⟨rest, hrest, hnil⟩
  · exact absurd hnil (wf.words_ne_nil hmem)
  · rw [hrest, List.prefix_nil.1 hnil]

theorem maskWords_cons (wf : puzzle.WellFormed) (hc : c.isAlpha = false) :
    maskWords puzzle (c :: text) = c :: maskWords puzzle text := by
  rw [maskWords, wordAt?_cons wf hc]

theorem maskWords_append_cons (wf : puzzle.WellFormed) (hc : c.isAlpha = false) :
    maskWords puzzle (front ++ c :: back) =
      maskWords puzzle front ++ c :: maskWords puzzle back := by
  fun_induction maskWords puzzle front with
  | case1 => exact maskWords_cons wf hc
  | case2 d front word hword ih =>
      have hlong : puzzle.wordAt? (d :: (front ++ c :: back)) = some word :=
        (wordAt?_append_cons wf hc (d :: front) back).trans hword
      rw [List.cons_append, maskWords, hlong, List.cons_append]
      simp only [drop_append_cons (mem_words_of_wordAt? hword).2, ih]
  | case3 d front hnone ih =>
      have hlong : puzzle.wordAt? (d :: (front ++ c :: back)) = none :=
        (wordAt?_append_cons wf hc (d :: front) back).trans hnone
      rw [List.cons_append, maskWords, hlong, List.cons_append]
      simp only [ih]

/-- Of the words with which a word begins, the table lists itself first. -/
theorem wordAt?_word (wf : puzzle.WellFormed) (h : text ∈ puzzle.words) :
    puzzle.wordAt? text = some text := by
  have hsorted := wf.words_longestFirst
  unfold Puzzle.wordAt?
  generalize puzzle.words = words at h hsorted
  induction words with
  | nil => cases h
  | cons word words ih =>
      obtain ⟨hlonger, hsorted⟩ := List.pairwise_cons.1 hsorted
      by_cases heq : word = text
      · rw [heq, List.find?_cons_of_pos (by simp)]
      · have hmem : text ∈ words := by simpa [Ne.symm heq] using h
        have hnot : ¬ word <+: text := fun hpre =>
          heq (hpre.eq_of_length_le (hlonger text hmem))
        rw [List.find?_cons_of_neg (by simpa using hnot), ih hmem hsorted]

theorem maskWords_word (wf : puzzle.WellFormed) (h : text ∈ puzzle.words) :
    maskWords puzzle text = [placeholder] := by
  obtain ⟨c, rest, rfl⟩ := List.exists_cons_of_ne_nil (wf.words_ne_nil h)
  rw [maskWords, wordAt?_word wf h]
  simp [maskWords]

end Mask

/-! ### Legible texts -/

/-- The checks of characters and of brackets find no fault in the text. -/
structure Puzzle.Legible (puzzle : Puzzle) (text : List Char) : Prop where
  charset : checkCharset puzzle text = .ok ()
  brackets : checkBrackets puzzle (maskWords puzzle text) = .ok ()

theorem isAlpha_of_isMark {c : Char} (h : isMark c = true) : c.isAlpha = false := by
  cases hc : c.isAlpha with
  | false => rfl
  | true => rw [isMark_of_isAlpha hc] at h; cases h

theorem allows_of_isMark (puzzle : Puzzle) {c : Char} (h : isMark c = true) :
    puzzle.allows c = true := by
  simp only [isMark, Bool.or_eq_true] at h
  simp only [Puzzle.allows, Bool.or_eq_true]
  tauto

theorem allows_of_isNumber {puzzle : Puzzle} {digits : List Char} (h : puzzle.IsNumber digits)
    {c : Char} (hc : c ∈ digits) : puzzle.allows c = true := by
  obtain ⟨hdigit, hbase⟩ := h.2 c hc
  have hallowed : puzzle.allowsDigit c = true := by
    simpa [Puzzle.allowsDigit, Numeral.digit?, hdigit] using hbase
  simp [Puzzle.allows, hallowed]

namespace Puzzle.WellFormed

variable {puzzle : Puzzle}

theorem isBracketLetter_of_not_isAlpha (wf : puzzle.WellFormed) {c : Char}
    (hc : c.isAlpha = false) : puzzle.isBracketLetter c = false := by
  by_contra h
  obtain ⟨family, hfamily, rfl⟩ := (isBracketLetter_iff ..).1 (by simpa using h)
  exact ne_of_isAlpha (wf.letters family hfamily).1 hc rfl

/-- Names are made of letters, so no other character is a name. -/
theorem not_named_of_not_isAlpha (wf : puzzle.WellFormed) {c : Char} (hc : c.isAlpha = false) :
    (puzzle.vocabulary.any fun v => v.name.toList == [c]) = false := by
  rw [List.any_eq_false]
  intro entry hentry
  simp only [beq_iff_eq]
  intro hname
  exact ne_of_isAlpha ((wf.words entry hentry).2 c (by simp [hname])) hc rfl

/-- Marks divide a text into parts that are checked on their own. -/
theorem legible_append (wf : puzzle.WellFormed) {front back : List Char} {mark : Char}
    (hmark : isMark mark = true) (hf : puzzle.Legible front) (hb : puzzle.Legible back) :
    puzzle.Legible (front ++ mark :: back) := by
  have halpha := isAlpha_of_isMark hmark
  constructor
  · have hfront := (checkCharset_eq_ok_iff puzzle front).1 hf.charset
    have hback := (checkCharset_eq_ok_iff puzzle back).1 hb.charset
    rw [checkCharset_eq_ok_iff, withoutWords_append_cons wf halpha]
    intro c hc
    rcases List.mem_append.1 hc with hc | hc
    · exact hfront c hc
    · rcases List.mem_cons.1 hc with rfl | hc
      · exact allows_of_isMark puzzle hmark
      · exact hback c hc
  · have hbracket := ne_bracket hmark (by decide) (by decide)
    rw [maskWords_append_cons wf halpha, ((checkBrackets_eq_ok_iff ..).1 hf.brackets).checkBrackets_append,
      checkBrackets_cons (wf.isBracketLetter_of_not_isAlpha halpha) hbracket, hb.brackets]

theorem legible_nil (puzzle : Puzzle) : puzzle.Legible [] := by
  constructor
  · rw [checkCharset_eq_ok_iff, withoutWords_nil]
    simp
  · simp [maskWords, checkBrackets]

theorem legible_number (wf : puzzle.WellFormed) {digits : List Char}
    (h : puzzle.IsNumber digits) : puzzle.Legible digits := by
  constructor
  · rw [checkCharset_eq_ok_iff]
    exact fun c hc => allows_of_isNumber h (mem_of_mem_withoutWords hc)
  · have hdigits : ∀ c ∈ digits, c.isDigit = true := fun c hc => (h.2 c hc).1
    clear h
    induction digits with
    | nil => simp [maskWords, checkBrackets]
    | cons c rest ih =>
        have hc := hdigits c (by simp)
        have halpha := isAlpha_of_isDigit hc
        have hbracket := ne_bracket hc (by decide) (by decide)
        rw [maskWords_cons wf halpha,
          checkBrackets_cons (wf.isBracketLetter_of_not_isAlpha halpha) hbracket]
        exact ih fun d hd => hdigits d (by simp [hd])

theorem checkBrackets_placeholder (wf : puzzle.WellFormed) (text : List Char) :
    checkBrackets puzzle (placeholder :: text) = checkBrackets puzzle text :=
  checkBrackets_cons (wf.isBracketLetter_of_not_isAlpha (by decide)) (by decide)

theorem legible_word (wf : puzzle.WellFormed) {text : List Char} (h : text ∈ puzzle.words) :
    puzzle.Legible text := by
  constructor
  · rw [checkCharset_eq_ok_iff, withoutWords_word wf h]
    simp
  · rw [maskWords_word wf h, wf.checkBrackets_placeholder, checkBrackets]

/-- A name of one letter is allowed on its own, and no bracket belongs to it. -/
theorem legible_letter (wf : puzzle.WellFormed) {entry : NamedVariable}
    (hentry : entry ∈ puzzle.vocabulary) {c : Char} (hc : entry.name.toList = [c]) :
    puzzle.Legible [c] := by
  constructor
  · rw [checkCharset_eq_ok_iff]
    intro d hd
    obtain rfl : d = c := by simpa using mem_of_mem_withoutWords hd
    have hnamed : (puzzle.vocabulary.any fun v => v.name.toList == [d]) = true :=
      List.any_eq_true.2 ⟨entry, hentry, by simp [hc]⟩
    simp [Puzzle.allows, hnamed]
  · have halpha : c.isAlpha = true := (wf.words entry hentry).2 c (by simp [hc])
    have hletter : puzzle.isBracketLetter c = false := by
      by_contra h
      obtain ⟨family, hfamily, rfl⟩ := (isBracketLetter_iff ..).1 (by simpa using h)
      exact (wf.letters family hfamily).2 entry hentry hc
    have hbracket := ne_bracket halpha (by decide) (by decide)
    cases hword : puzzle.wordAt? [c] with
    | none =>
        rw [maskWords, hword]
        simp only [maskWords]
        rw [checkBrackets_cons hletter hbracket, checkBrackets]
    | some word =>
        rw [maskWords, hword]
        simp only [List.drop_nil, maskWords]
        rw [wf.checkBrackets_placeholder, checkBrackets]

/-- The names of the table are legible: longer ones disappear as words. -/
theorem legible_name (wf : puzzle.WellFormed) {entry : NamedVariable}
    (hentry : entry ∈ puzzle.vocabulary) : puzzle.Legible entry.name.toList := by
  by_cases hlength : 1 < entry.name.toList.length
  · exact wf.legible_word (mem_words_of_length hentry hlength)
  · obtain ⟨c, hc⟩ : ∃ c, entry.name.toList = [c] := by
      have hpos := List.length_pos_of_ne_nil (wf.words entry hentry).1
      exact List.length_eq_one_iff.1 (by omega)
    rw [hc]
    exact wf.legible_letter hentry hc

theorem allowsDigit_of_isDistance (wf : puzzle.WellFormed) (hbrackets : puzzle.brackets ≠ [])
    {c : Char} (h : isDistance c = true) : puzzle.allowsDigit c = true := by
  have hbase := wf.distances hbrackets
  have hdigit := isDigit_of_isDistance h
  have hnine : c.toNat ≤ '9'.toNat := (Char.isDigit_iff_toNat.1 hdigit).2
  have hten : '9'.toNat - '0'.toNat < 10 := by decide
  simp only [Puzzle.allowsDigit, Numeral.digit?, hdigit, if_true, Option.any_some,
    decide_eq_true_eq]
  omega

theorem legible_bracket (wf : puzzle.WellFormed) {family : BracketFamily}
    (hfamily : family ∈ puzzle.brackets) {distance : Char}
    (hdistance : isDistance distance = true) :
    puzzle.Legible [family.letter, '[', distance, ']'] := by
  have hletter : puzzle.isBracketLetter family.letter = true :=
    (isBracketLetter_iff ..).2 ⟨family, hfamily, rfl⟩
  have hbrackets : puzzle.brackets ≠ [] := List.ne_nil_of_mem hfamily
  have hdigit := isDigit_of_isDistance hdistance
  constructor
  · rw [checkCharset_eq_ok_iff]
    intro c hc
    have hmem := mem_of_mem_withoutWords hc
    simp only [List.mem_cons, List.not_mem_nil, or_false] at hmem
    rcases hmem with rfl | rfl | rfl | rfl
    · simp [Puzzle.allows, hbrackets, hletter]
    · simp [Puzzle.allows, hbrackets]
    · simp [Puzzle.allows, wf.allowsDigit_of_isDistance hbrackets hdistance]
    · simp [Puzzle.allows, hbrackets]
  · have hword : puzzle.wordAt? [family.letter, '[', distance, ']'] = none := by
      rw [← List.singleton_append, wordAt?_append_cons wf (by decide),
        wordAt?_letter wf hfamily]
    rw [maskWords, hword]
    simp only [maskWords_cons wf (c := '[') (by decide),
      maskWords_cons wf (isAlpha_of_isDigit hdigit), maskWords_cons wf (c := ']') (by decide),
      maskWords]
    rw [checkBrackets_variable hletter hdistance, checkBrackets]

end Puzzle.WellFormed

theorem Phrase.legible_text {puzzle : Puzzle} (wf : puzzle.WellFormed) {level : Level}
    (phrase : Phrase level) (h : phrase.Admitted puzzle) : puzzle.Legible phrase.text := by
  have hnil := Puzzle.WellFormed.legible_nil puzzle
  induction phrase with
  | number digits => exact wf.legible_number h
  | «variable» name =>
      cases h with
      | word hentry => exact wf.legible_name hentry
      | bracket hfamily hrange =>
          have := wf.legible_bracket hfamily ((isDistance_iff _).2 hrange)
          simpa [text] using this
  | group inner ih =>
      have hclosed : puzzle.Legible (inner.text ++ ')' :: []) :=
        wf.legible_append (by decide) (ih h) hnil
      have hgroup : puzzle.Legible ([] ++ '(' :: (inner.text ++ ')' :: [])) :=
        wf.legible_append (by decide) hnil hclosed
      exact hgroup
  | factor body ih => exact ih h
  | times lhs rhs ihl ihr => exact wf.legible_append (by decide) (ihl h.1) (ihr h.2)
  | product body ih => exact ih h
  | join lhs op additive rhs ihl ihr =>
      exact wf.legible_append (isMark_sign op) (ihl h.1) (ihr h.2)

end HatCircle
