import Mathlib.Data.List.TakeWhile
import HatCircle.Proofs.Derivation

/-!
# What the lexer makes of a text

`Splits` relates a text to its lexemes, one lexeme at a time and without positions;
the lexer returns some lexemes exactly when the text splits into them
(`lexAt_eq_ok_iff`). From left to right this gives the shape of the lexemes: their texts
make up the whole text, numbers are runs of digits and variables are variables of the
puzzle (`Splits.spell_eq`, `Splits.lexed`).

A parenthesis or an operator is never part of a longer lexeme. So a text may be split at
each of them, and the text of a phrase splits into the lexemes of the phrase
(`Phrase.splits_text`).
-/

namespace HatCircle

/-- No name is empty, and neither names nor bracket letters hold parentheses or operators. -/
structure Puzzle.Unmarked (puzzle : Puzzle) : Prop where
  names : ∀ entry ∈ puzzle.vocabulary,
    entry.name ≠ "" ∧ ∀ c ∈ entry.name.toList, isMark c = false
  letters : ∀ family ∈ puzzle.brackets, isMark family.letter = false

theorem Puzzle.unmarked_iff (puzzle : Puzzle) :
    ((∀ entry ∈ puzzle.vocabulary,
        entry.name ≠ "" ∧ entry.name.toList.all (fun c => !isMark c) = true) ∧
      ∀ family ∈ puzzle.brackets, isMark family.letter = false) ↔ puzzle.Unmarked := by
  simp only [List.all_eq_true, Bool.not_eq_true']
  constructor
  · rintro ⟨hnames, hletters⟩
    exact ⟨hnames, hletters⟩
  · intro hu
    exact ⟨hu.names, hu.letters⟩

instance (puzzle : Puzzle) : Decidable puzzle.Unmarked :=
  decidable_of_iff _ puzzle.unmarked_iff

/-! ### Characters -/

theorem ofChar?_eq_some_iff (c : Char) (op : Operator) :
    Operator.ofChar? c = some op ↔ c = op.sign := by
  constructor
  · intro h
    unfold Operator.ofChar? at h
    split at h
    · rename_i hc
      cases h
      exact hc
    · split at h
      · rename_i hc
        cases h
        exact hc
      · split at h
        · rename_i hc
          cases h
          exact hc
        · cases h
  · rintro rfl
    cases op <;> decide

theorem isMark_cases {c : Char} (h : isMark c = true) :
    c = '(' ∨ c = ')' ∨ ∃ op : Operator, c = op.sign := by
  simp only [isMark, Bool.or_eq_true, beq_iff_eq, isOperator] at h
  rcases h with (h | h) | h
  · exact .inl h
  · exact .inr (.inl h)
  · obtain ⟨op, hop⟩ := Option.isSome_iff_exists.1 h
    exact .inr (.inr ⟨op, (ofChar?_eq_some_iff c op).1 hop⟩)

theorem isMark_of_isDigit {c : Char} (h : c.isDigit = true) : isMark c = false := by
  by_contra hmark
  rcases isMark_cases (by simpa using hmark) with rfl | rfl | ⟨op, rfl⟩
  · exact absurd h (by decide)
  · exact absurd h (by decide)
  · cases op <;> exact absurd h (by decide)

theorem isDigit_of_isMark {c : Char} (h : isMark c = true) : c.isDigit = false := by
  cases hc : c.isDigit with
  | false => rfl
  | true => rw [isMark_of_isDigit hc] at h; cases h

theorem isDistance_iff (c : Char) : isDistance c = true ↔ '1' ≤ c ∧ c ≤ '9' := by
  simp only [isDistance, Bool.and_eq_true, decide_eq_true_eq]

theorem isDigit_of_isDistance {c : Char} (h : isDistance c = true) : c.isDigit = true := by
  rw [isDistance_iff] at h
  rw [Char.isDigit_iff_toNat]
  have h₁ : '1'.toNat ≤ c.toNat := h.1
  have h₂ : c.toNat ≤ '9'.toNat := h.2
  exact ⟨by simp at h₁ ⊢; omega, h₂⟩

theorem isMark_of_isDistance {c : Char} (h : isDistance c = true) : isMark c = false :=
  isMark_of_isDigit (isDigit_of_isDistance h)

/-! ### Names and brackets at the start of a text -/

theorem isBracketLetter_iff (puzzle : Puzzle) (c : Char) :
    puzzle.isBracketLetter c = true ↔ ∃ family ∈ puzzle.brackets, family.letter = c := by
  simp [Puzzle.isBracketLetter, Puzzle.family?]

theorem longerName_cases (a b : String) :
    (longerName a b = a ∨ longerName a b = b) ∧
      a.utf8ByteSize ≤ (longerName a b).utf8ByteSize ∧
      b.utf8ByteSize ≤ (longerName a b).utf8ByteSize := by
  unfold longerName
  split
  · exact ⟨.inl rfl, by omega, by omega⟩
  · exact ⟨.inr rfl, by omega, by omega⟩

/-- Going through some names with one in hand ends with a longest of them. -/
theorem exists_longest (names : List String) (best : String) :
    ∃ name ∈ best :: names,
      names.foldl (fun best name => some (best.elim name fun b => longerName b name))
        (some best) = some name ∧
          ∀ other ∈ best :: names, other.utf8ByteSize ≤ name.utf8ByteSize := by
  induction names generalizing best with
  | nil => exact ⟨best, by simp, rfl, by simp⟩
  | cons next names ih =>
      obtain ⟨name, hname, hfold, hlongest⟩ := ih (longerName best next)
      obtain ⟨heither, hbest, hnext⟩ := longerName_cases best next
      refine ⟨name, ?_, hfold, ?_⟩
      · rcases List.mem_cons.1 hname with rfl | hname
        · rcases heither with h | h <;> simp [h]
        · simp [hname]
      · have hlonger := hlongest (longerName best next) (by simp)
        intro other hother
        rcases List.mem_cons.1 hother with rfl | hother
        · omega
        · rcases List.mem_cons.1 hother with rfl | hother
          · omega
          · exact hlongest other (by simp [hother])

theorem length_le_utf8ByteSize (name : String) : name.length ≤ name.utf8ByteSize := by
  have h : ∀ text : List Char, text.length ≤ (String.ofList text).utf8ByteSize := by
    intro text
    induction text with
    | nil => simp
    | cons c text ih =>
        have hc := Char.utf8Size_pos c
        rw [String.ofList_cons, String.utf8ByteSize_append, String.utf8ByteSize_singleton,
          List.length_cons]
        omega
  rw [← String.length_toList]
  simpa only [String.ofList_toList] using h name.toList

/-- Of two names with which one text begins, the one with more bytes has no fewer characters:
one of the two is the beginning of the other. -/
theorem length_le_of_utf8ByteSize_le {a b : String} {text : List Char} (ha : a.toList <+: text)
    (hb : b.toList <+: text) (h : a.utf8ByteSize ≤ b.utf8ByteSize) : a.length ≤ b.length := by
  rcases List.prefix_or_prefix_of_prefix ha hb with hpre | ⟨more, hmore⟩
  · rw [← String.length_toList, ← String.length_toList]
    exact hpre.length_le
  · obtain rfl : b ++ String.ofList more = a := by
      rw [← String.toList_inj, String.toList_append, String.toList_ofList, hmore]
    have hsize := length_le_utf8ByteSize (String.ofList more)
    rw [String.utf8ByteSize_append] at h
    rw [String.length_append]
    omega

def Puzzle.BeginsWith (puzzle : Puzzle) (text : List Char) (name : String) : Prop :=
  (∃ entry ∈ puzzle.vocabulary, entry.name = name) ∧ name.toList <+: text

theorem mem_candidates_iff (puzzle : Puzzle) (text : List Char) (name : String) :
    (name ∈ (puzzle.vocabulary.map (·.name)).filter fun name =>
      name.toList.isPrefixOf text) ↔ puzzle.BeginsWith text name := by
  simp [Puzzle.BeginsWith]

/-- The lexer finds a longest name with which the text begins, if there is any. -/
theorem nameAt?_cases (puzzle : Puzzle) (text : List Char) :
    (puzzle.nameAt? text = none ∧ ∀ name, ¬ puzzle.BeginsWith text name) ∨
      ∃ name, puzzle.nameAt? text = some name ∧ puzzle.BeginsWith text name ∧
        ∀ other, puzzle.BeginsWith text other → other.length ≤ name.length := by
  simp only [← mem_candidates_iff, Puzzle.nameAt?]
  cases hnames : (puzzle.vocabulary.map (·.name)).filter fun name =>
      name.toList.isPrefixOf text with
  | nil => exact .inl ⟨rfl, by simp⟩
  | cons first names =>
      obtain ⟨longest, hmem, hfold, hlongest⟩ := exists_longest names first
      have hpre : ∀ name ∈ first :: names, name.toList <+: text := by
        intro name hname
        rw [← hnames] at hname
        exact List.isPrefixOf_iff_prefix.1 (List.mem_filter.1 hname).2
      refine .inr ⟨longest, hfold, hmem, ?_⟩
      intro other hother
      exact length_le_of_utf8ByteSize_le (hpre other hother) (hpre longest hmem)
        (hlongest other hother)

theorem nameAt?_eq_none_iff (puzzle : Puzzle) (text : List Char) :
    puzzle.nameAt? text = none ↔ ∀ name, ¬ puzzle.BeginsWith text name := by
  rcases nameAt?_cases puzzle text with ⟨hnone, hall⟩ | ⟨found, hfound, hbegins, -⟩
  · exact ⟨fun _ => hall, fun _ => hnone⟩
  · constructor
    · intro h
      rw [h] at hfound
      cases hfound
    · intro h
      exact absurd hbegins (h found)

theorem nameAt?_eq_some_iff (puzzle : Puzzle) (text : List Char) (name : String) :
    puzzle.nameAt? text = some name ↔ puzzle.BeginsWith text name ∧
      ∀ other, puzzle.BeginsWith text other → other.length ≤ name.length := by
  rcases nameAt?_cases puzzle text with ⟨hnone, hall⟩ | ⟨found, hfound, hbegins, hlongest⟩
  · rw [hnone]
    constructor
    · intro h
      cases h
    · intro h
      exact absurd h.1 (hall name)
  · rw [hfound]
    constructor
    · intro h
      obtain rfl := Option.some.inj h
      exact ⟨hbegins, hlongest⟩
    · rintro ⟨hname, hname'⟩
      -- of one length, two names with which a text begins are one name
      have hle : found.toList.length ≤ name.toList.length := hname' found hbegins
      have hge : name.toList.length ≤ found.toList.length := hlongest name hname
      have hpre := List.prefix_of_prefix_length_le hbegins.2 hname.2 hle
      rw [String.toList_inj.1 (hpre.eq_of_length_le hge)]

theorem bracketAt?_eq_some_iff (puzzle : Puzzle) (text : List Char) (name : String) :
    puzzle.bracketAt? text = some name ↔ ∃ letter distance,
      [letter, '[', distance, ']'] <+: text ∧ isDistance distance = true ∧
        puzzle.isBracketLetter letter = true ∧
        name = String.ofList [letter, '[', distance, ']'] := by
  constructor
  · intro h
    unfold Puzzle.bracketAt? at h
    split at h
    · split at h
      · rename_i letter distance tail hcond
        rw [Bool.and_eq_true] at hcond
        exact ⟨letter, distance, ⟨tail, rfl⟩, hcond.1, hcond.2, (Option.some.inj h).symm⟩
      · cases h
    · cases h
  · rintro ⟨letter, distance, ⟨tail, rfl⟩, hdistance, hletter, rfl⟩
    simp [Puzzle.bracketAt?, hdistance, hletter]

/-! ### One lexeme at a time -/

/-- The lexemes that the lexer makes: numbers are runs of digits and variables are
variables of the puzzle. -/
def Lexeme.Lexed (puzzle : Puzzle) : Lexeme → Prop
  | .token (.number digits) => digits.toList ≠ [] ∧ ∀ c ∈ digits.toList, c.isDigit = true
  | .token (.variable name) => puzzle.IsVariable name
  | _ => True

/-- The first lexeme of a text is one that the lexer makes, and the text begins with it. -/
theorem first?_eq_some {puzzle : Puzzle} {c : Char} {rest : List Char} {lexeme : Lexeme}
    (h : Lexeme.first? puzzle c rest = some lexeme) :
    lexeme.Lexed puzzle ∧ lexeme.text.toList <+: c :: rest := by
  unfold Lexeme.first? at h
  split at h
  · rename_i name hname
    obtain rfl := Option.some.inj h
    obtain ⟨⟨⟨entry, hentry, rfl⟩, hpre⟩, -⟩ := (nameAt?_eq_some_iff ..).1 hname
    exact ⟨.word hentry, hpre⟩
  · split at h
    · rename_i name hname
      obtain rfl := Option.some.inj h
      obtain ⟨letter, distance, hpre, hdistance, hletter, rfl⟩ :=
        (bracketAt?_eq_some_iff ..).1 hname
      obtain ⟨family, hfamily, rfl⟩ := (isBracketLetter_iff ..).1 hletter
      refine ⟨.bracket hfamily ((isDistance_iff _).1 hdistance), ?_⟩
      simpa [Lexeme.text, Token.text] using hpre
    · split at h
      · rename_i hdigit
        obtain rfl := Option.some.inj h
        refine ⟨?_, ?_⟩
        · simp only [Lexeme.Lexed, String.toList_ofList]
          refine ⟨by simp, fun d hd => ?_⟩
          rcases List.mem_cons.1 hd with rfl | hd
          · exact hdigit
          · exact List.all_eq_true.1 List.all_takeWhile d hd
        · simpa [Lexeme.text, Token.text] using List.takeWhile_prefix _
      · split at h
        · rename_i hc
          obtain rfl := Option.some.inj h
          exact ⟨trivial, by simp [hc]⟩
        · split at h
          · rename_i hc
            obtain rfl := Option.some.inj h
            exact ⟨trivial, by simp [hc]⟩
          · obtain ⟨op, hop, rfl⟩ := Option.map_eq_some_iff.1 h
            rw [ofChar?_eq_some_iff] at hop
            exact ⟨trivial, by simp [hop]⟩

/-- Without an empty name there is no empty lexeme. -/
theorem Lexeme.Lexed.text_ne_nil {puzzle : Puzzle} {lexeme : Lexeme} (h : lexeme.Lexed puzzle)
    (hnames : ∀ entry ∈ puzzle.vocabulary, entry.name ≠ "") : lexeme.text.toList ≠ [] := by
  cases lexeme with
  | token token =>
      cases token with
      | number digits => exact h.1
      | «variable» name =>
          cases h with
          | @word entry hentry => simpa [Lexeme.text, Token.text] using hnames entry hentry
          | bracket hfamily hrange => simp [Lexeme.text, Token.text]
      | operator op => simp
  | opening => simp
  | closing => simp

/-- The text splits into the lexemes: each of them is the first one of what is left. -/
inductive Splits (puzzle : Puzzle) : List Char → List Lexeme → Prop where
  | nil : Splits puzzle [] []
  | cons {c : Char} {rest tail : List Char} {lexeme : Lexeme} {lexemes : List Lexeme}
      (first : Lexeme.first? puzzle c rest = some lexeme)
      (text : c :: rest = lexeme.text.toList ++ tail)
      (others : Splits puzzle tail lexemes) : Splits puzzle (c :: rest) (lexeme :: lexemes)

theorem drop_eq_of_text {text tail : List Char} {lexeme : Lexeme}
    (htext : text = lexeme.text.toList ++ tail) : text.drop lexeme.text.length = tail := by
  rw [htext, ← String.length_toList, List.drop_left]

/-- A lexeme behind which the same text is left over is never done with. -/
theorem Splits.length_ne_zero {puzzle : Puzzle} {c : Char} {rest : List Char}
    {lexemes : List Lexeme} (h : Splits puzzle (c :: rest) lexemes) {lexeme : Lexeme}
    (hfirst : Lexeme.first? puzzle c rest = some lexeme) : lexeme.text.length ≠ 0 := by
  intro hzero
  generalize htext : c :: rest = text at h
  induction h with
  | nil => cases htext
  | cons hfirst' hsplit _ ih =>
      obtain ⟨rfl, rfl⟩ := List.cons.inj htext
      obtain rfl := Option.some.inj (hfirst.symm.trans hfirst')
      rw [← String.length_toList] at hzero
      rw [List.length_eq_zero_iff.1 hzero, List.nil_append] at hsplit
      exact ih hsplit

theorem lexAt_eq_ok_iff (puzzle : Puzzle) (position : Nat) (text : List Char)
    (lexemes : List Lexeme) :
    lexAt puzzle position text = .ok lexemes ↔ Splits puzzle text lexemes := by
  fun_induction lexAt puzzle position text generalizing lexemes with
  | case1 position =>
      constructor
      · intro h
        cases h
        exact .nil
      · intro h
        cases h
        rfl
  | case2 position c rest hnone =>
      constructor
      · intro h
        cases h
      · intro h
        cases h with
        | cons hfirst => rw [hnone] at hfirst; cases hfirst
  | case3 position c rest lexeme hfirst width hzero =>
      constructor
      · intro h
        cases h
      · intro h
        exact absurd hzero (h.length_ne_zero hfirst)
  | case4 position c rest lexeme hfirst width hwidth ih =>
      obtain ⟨-, tail, htail⟩ := first?_eq_some hfirst
      rw [drop_eq_of_text htail.symm] at ih ⊢
      constructor
      · intro h
        cases hrest : lexAt puzzle (position + width) tail with
        | error error => rw [hrest] at h; cases h
        | ok others =>
            rw [hrest] at h
            cases h
            exact .cons hfirst htail.symm ((ih others).1 hrest)
      · intro h
        cases h with
        | cons hfirst' htext hothers =>
            obtain rfl := Option.some.inj (hfirst.symm.trans hfirst')
            obtain rfl := List.append_cancel_left (htail.trans htext)
            rw [(ih _).2 hothers]
            rfl

theorem Splits.spell_eq {puzzle : Puzzle} {text : List Char} {lexemes : List Lexeme}
    (h : Splits puzzle text lexemes) : Lexeme.spell lexemes = text := by
  induction h with
  | nil => rfl
  | cons _ htext _ ih => rw [Lexeme.spell_cons, ih, htext]

theorem Splits.lexed {puzzle : Puzzle} {text : List Char} {lexemes : List Lexeme}
    (h : Splits puzzle text lexemes) : ∀ lexeme ∈ lexemes, lexeme.Lexed puzzle := by
  induction h with
  | nil => simp
  | cons hfirst _ _ ih =>
      intro lexeme hmem
      rcases List.mem_cons.1 hmem with rfl | hmem
      · exact (first?_eq_some hfirst).1
      · exact ih lexeme hmem

/-- The operands that the lexer finds hold neither parentheses nor operators if the names
and letters of the puzzle do not. -/
theorem Lexeme.Lexed.plain {puzzle : Puzzle} (hu : puzzle.Unmarked) {lexeme : Lexeme}
    (h : lexeme.Lexed puzzle) : lexeme.Plain := by
  cases lexeme with
  | token token =>
      cases token with
      | number digits => exact ⟨h.1, fun c hc => isMark_of_isDigit (h.2 c hc)⟩
      | «variable» name =>
          cases h with
          | word hentry =>
              obtain ⟨hne, hmarks⟩ := hu.names _ hentry
              exact ⟨by simpa [Token.text] using hne, hmarks⟩
          | bracket hfamily hrange =>
              refine ⟨by simp [Token.text], fun c hc => ?_⟩
              simp only [Token.text, String.toList_ofList, List.mem_cons, List.not_mem_nil,
                or_false] at hc
              rcases hc with rfl | rfl | rfl | rfl
              · exact hu.letters _ hfamily
              · decide
              · exact isMark_of_isDistance ((isDistance_iff _).2 hrange)
              · decide
      | operator op => trivial
  | opening => trivial
  | closing => trivial

/-! ### Splitting at parentheses and operators -/

section Marks

variable {puzzle : Puzzle} {mark : Char} {text tail : List Char} {lexemes others : List Lexeme}

theorem prefix_append_cons_iff {α : Type} {word : List α} {a : α} (h : a ∉ word)
    (front back : List α) : word <+: front ++ a :: back ↔ word <+: front := by
  constructor
  · intro hword
    have hfront : front ++ [a] <+: front ++ a :: back := ⟨back, by simp⟩
    rcases List.prefix_or_prefix_of_prefix hword hfront with hword | ⟨rest, rfl⟩
    · rcases List.prefix_concat_iff.1 hword with rfl | hword
      · simp at h
      · exact hword
    · simp at h
  · intro hword
    exact hword.trans (List.prefix_append ..)

theorem takeWhile_append_cons {α : Type} {p : α → Bool} {a : α} (h : p a = false)
    (front back : List α) : (front ++ a :: back).takeWhile p = front.takeWhile p := by
  induction front with
  | nil => simp [h]
  | cons b front ih => simp [List.takeWhile_cons, ih]

theorem nameAt?_append_mark (hu : puzzle.Unmarked) (hmark : isMark mark = true)
    (text tail : List Char) :
    puzzle.nameAt? (text ++ mark :: tail) = puzzle.nameAt? text := by
  have hfilter : ∀ name ∈ puzzle.vocabulary.map (·.name),
      name.toList.isPrefixOf (text ++ mark :: tail) = name.toList.isPrefixOf text := by
    intro name hname
    obtain ⟨entry, hentry, rfl⟩ := List.mem_map.1 hname
    have hnot : mark ∉ entry.name.toList := by
      intro hmem
      rw [(hu.names entry hentry).2 mark hmem] at hmark
      cases hmark
    rw [Bool.eq_iff_iff, List.isPrefixOf_iff_prefix, List.isPrefixOf_iff_prefix]
    exact prefix_append_cons_iff hnot text tail
  simp only [Puzzle.nameAt?, List.filter_congr hfilter]

theorem bracketAt?_append_mark (hu : puzzle.Unmarked) (hmark : isMark mark = true)
    (text tail : List Char) :
    puzzle.bracketAt? (text ++ mark :: tail) = puzzle.bracketAt? text := by
  have hpre : ∀ letter distance, isDistance distance = true →
      puzzle.isBracketLetter letter = true →
      ([letter, '[', distance, ']'] <+: text ++ mark :: tail ↔
        [letter, '[', distance, ']'] <+: text) := by
    intro letter distance hdistance hletter
    refine prefix_append_cons_iff ?_ text tail
    obtain ⟨family, hfamily, rfl⟩ := (isBracketLetter_iff ..).1 hletter
    have hletter' := hu.letters family hfamily
    have hdistance' := isMark_of_isDistance hdistance
    simp only [List.mem_cons, List.not_mem_nil, or_false]
    rintro (rfl | rfl | rfl | rfl)
    · exact absurd hmark (by simp [hletter'])
    · exact absurd hmark (by decide)
    · exact absurd hmark (by simp [hdistance'])
    · exact absurd hmark (by decide)
  apply Option.ext
  intro name
  rw [bracketAt?_eq_some_iff, bracketAt?_eq_some_iff]
  constructor
  · rintro ⟨letter, distance, hword, hdistance, hletter, rfl⟩
    exact ⟨letter, distance, (hpre _ _ hdistance hletter).1 hword, hdistance, hletter, rfl⟩
  · rintro ⟨letter, distance, hword, hdistance, hletter, rfl⟩
    exact ⟨letter, distance, (hpre _ _ hdistance hletter).2 hword, hdistance, hletter, rfl⟩

/-- A mark ends the lexeme before it. -/
theorem first?_append_mark (hu : puzzle.Unmarked) (hmark : isMark mark = true) (c : Char)
    (rest : List Char) :
    Lexeme.first? puzzle c (rest ++ mark :: tail) = Lexeme.first? puzzle c rest := by
  unfold Lexeme.first?
  rw [← List.cons_append, nameAt?_append_mark hu hmark, bracketAt?_append_mark hu hmark,
    takeWhile_append_cons (isDigit_of_isMark hmark)]

theorem Splits.append (hu : puzzle.Unmarked) (hmark : isMark mark = true)
    (htext : Splits puzzle text lexemes) (htail : Splits puzzle (mark :: tail) others) :
    Splits puzzle (text ++ mark :: tail) (lexemes ++ others) := by
  induction htext with
  | nil => exact htail
  | cons hfirst heq _ ih =>
      rw [List.cons_append, List.cons_append]
      refine .cons ?_ ?_ ih
      · rw [first?_append_mark hu hmark, hfirst]
      · rw [← List.cons_append, heq, List.append_assoc]

/-- Neither a name nor a bracket begins with a mark. -/
theorem first?_mark (hu : puzzle.Unmarked) (hmark : isMark mark = true) (rest : List Char) :
    Lexeme.first? puzzle mark rest =
      if mark = '(' then some .opening
      else if mark = ')' then some .closing
      else (Operator.ofChar? mark).map fun op => .token (.operator op) := by
  have hname : puzzle.nameAt? (mark :: rest) = none := by
    have h := nameAt?_append_mark hu hmark [] rest
    rw [List.nil_append] at h
    rw [h, nameAt?_eq_none_iff]
    rintro name ⟨⟨entry, hentry, rfl⟩, hpre⟩
    exact (hu.names entry hentry).1 (by simpa using hpre)
  have hbracket : puzzle.bracketAt? (mark :: rest) = none := by
    have h := bracketAt?_append_mark hu hmark [] rest
    rw [List.nil_append] at h
    rw [h]
    rfl
  unfold Lexeme.first?
  rw [hname, hbracket]
  simp only [isDigit_of_isMark hmark, Bool.false_eq_true, if_false]

theorem Splits.opening (hu : puzzle.Unmarked) (h : Splits puzzle tail lexemes) :
    Splits puzzle ('(' :: tail) (.opening :: lexemes) :=
  .cons (by rw [first?_mark hu (by decide)]; rfl) rfl h

theorem Splits.closing (hu : puzzle.Unmarked) (h : Splits puzzle tail lexemes) :
    Splits puzzle (')' :: tail) (.closing :: lexemes) :=
  .cons (by rw [first?_mark hu (by decide)]; rfl) rfl h

theorem Splits.operator (hu : puzzle.Unmarked) (op : Operator)
    (h : Splits puzzle tail lexemes) :
    Splits puzzle (op.sign :: tail) (.token (.operator op) :: lexemes) := by
  refine .cons ?_ (by simp) h
  rw [first?_mark hu (isMark_sign op)]
  cases op <;> rfl

end Marks

/-! ### Splitting the text of a phrase -/

theorem ne_of_isAlpha {c d : Char} (hc : c.isAlpha = true) (hd : d.isAlpha = false) : c ≠ d := by
  rintro rfl
  rw [hd] at hc
  cases hc

theorem isAlpha_iff_toNat {c : Char} : c.isAlpha = true ↔
    'A'.toNat ≤ c.toNat ∧ c.toNat ≤ 'Z'.toNat ∨ 'a'.toNat ≤ c.toNat ∧ c.toNat ≤ 'z'.toNat := by
  change (decide ('A'.val ≤ c.val ∧ c.val ≤ 'Z'.val) ||
    (decide ('a'.val ≤ c.val) && decide (c.val ≤ 'z'.val))) = true ↔ _
  simp only [Bool.or_eq_true, Bool.and_eq_true, decide_eq_true_eq, UInt32.le_iff_toNat_le]
  rfl

theorem isAlpha_of_isDigit {c : Char} (h : c.isDigit = true) : c.isAlpha = false := by
  obtain ⟨-, hnine⟩ := Char.isDigit_iff_toNat.1 h
  by_contra hletter
  have hle : 'A'.toNat ≤ c.toNat := by
    rcases isAlpha_iff_toNat.1 (by simpa using hletter) with ⟨hle, -⟩ | ⟨hle, -⟩
    · exact hle
    · exact Nat.le_trans (by decide) hle
  exact absurd (Nat.le_trans hle hnine) (by decide)

theorem isMark_of_isAlpha {c : Char} (h : c.isAlpha = true) : isMark c = false := by
  by_contra hmark
  rcases isMark_cases (by simpa using hmark) with rfl | rfl | ⟨op, rfl⟩
  · exact absurd h (by decide)
  · exact absurd h (by decide)
  · cases op <;> exact absurd h (by decide)

namespace Puzzle.WellFormed

variable {puzzle : Puzzle}

theorem unmarked (wf : puzzle.WellFormed) : puzzle.Unmarked where
  names entry hentry := by
    obtain ⟨hne, hletters⟩ := wf.words entry hentry
    exact ⟨by simpa using hne, fun c hc => isMark_of_isAlpha (hletters c hc)⟩
  letters family hfamily := isMark_of_isAlpha (wf.letters family hfamily).1

/-- A text begins with a letter if it begins with a name. -/
theorem not_beginsWith (wf : puzzle.WellFormed) {c : Char} {rest : List Char}
    (hc : c.isAlpha = false) (name : String) : ¬ puzzle.BeginsWith (c :: rest) name := by
  rintro ⟨⟨entry, hentry, rfl⟩, hpre⟩
  obtain ⟨hne, hletters⟩ := wf.words entry hentry
  obtain ⟨d, word, hword⟩ := List.exists_cons_of_ne_nil hne
  rw [hword] at hpre hletters
  have hd := (List.cons_prefix_cons.1 hpre).1
  exact ne_of_isAlpha (hletters d (by simp)) hc hd

theorem splits_number (wf : puzzle.WellFormed) {digits : String}
    (hne : digits.toList ≠ []) (hdigits : ∀ c ∈ digits.toList, c.isDigit = true) :
    Splits puzzle digits.toList [.token (.number digits)] := by
  obtain ⟨c, rest, hcons⟩ := List.exists_cons_of_ne_nil hne
  have hc : c.isDigit = true := hdigits c (by simp [hcons])
  have hname : puzzle.nameAt? (c :: rest) = none :=
    (nameAt?_eq_none_iff ..).2 (wf.not_beginsWith (isAlpha_of_isDigit hc))
  have hbracket : puzzle.bracketAt? (c :: rest) = none := by
    rw [Option.eq_none_iff_forall_not_mem]
    intro name hmem
    obtain ⟨letter, distance, hpre, -, hletter, -⟩ := (bracketAt?_eq_some_iff ..).1 hmem
    obtain ⟨family, hfamily, rfl⟩ := (isBracketLetter_iff ..).1 hletter
    have halpha := (wf.letters family hfamily).1
    exact ne_of_isAlpha halpha (isAlpha_of_isDigit hc) (List.cons_prefix_cons.1 hpre).1
  have htake : rest.takeWhile Char.isDigit = rest :=
    List.takeWhile_eq_self_iff.2 fun d hd => hdigits d (by simp [hcons, hd])
  have htext : String.ofList (c :: rest) = digits := by rw [← hcons, String.ofList_toList]
  rw [hcons]
  refine .cons ?_ ?_ .nil
  · unfold Lexeme.first?
    rw [hname, hbracket]
    simp only [hc, if_true, htake, htext]
  · simp [Lexeme.text, Token.text, hcons]

theorem splits_word (wf : puzzle.WellFormed) {entry : NamedVariable}
    (hentry : entry ∈ puzzle.vocabulary) :
    Splits puzzle entry.name.toList [.token (.variable entry.name)] := by
  obtain ⟨hne, -⟩ := wf.words entry hentry
  have hname : puzzle.nameAt? entry.name.toList = some entry.name := by
    rw [nameAt?_eq_some_iff]
    refine ⟨⟨⟨entry, hentry, rfl⟩, List.prefix_rfl⟩, ?_⟩
    rintro other ⟨-, hpre⟩
    exact hpre.length_le
  obtain ⟨c, rest, hcons⟩ := List.exists_cons_of_ne_nil hne
  rw [hcons] at hname ⊢
  refine .cons ?_ ?_ .nil
  · unfold Lexeme.first?
    rw [hname]
  · simp [Lexeme.text, Token.text, hcons]

theorem splits_bracket (wf : puzzle.WellFormed) {family : BracketFamily}
    (hfamily : family ∈ puzzle.brackets) {distance : Char}
    (hdistance : isDistance distance = true) :
    Splits puzzle [family.letter, '[', distance, ']']
      [.token (.variable (String.ofList [family.letter, '[', distance, ']']))] := by
  obtain ⟨hletter, hnames⟩ := wf.letters family hfamily
  have hname : puzzle.nameAt? [family.letter, '[', distance, ']'] = none := by
    rw [nameAt?_eq_none_iff]
    rintro name ⟨⟨entry, hentry, rfl⟩, hpre⟩
    obtain ⟨hne, hletters⟩ := wf.words entry hentry
    -- a name is made of letters, so it could only be the bracket letter itself
    have hshort : entry.name.toList <+: [family.letter] := by
      refine (prefix_append_cons_iff ?_ [family.letter] [distance, ']']).1 hpre
      intro hmem
      exact absurd (hletters _ hmem) (by decide)
    rcases List.prefix_cons_iff.1 hshort with hnil | ⟨t, ht, htnil⟩
    · exact hne hnil
    · rw [List.prefix_nil.1 htnil] at ht
      exact hnames entry hentry ht
  have hbracket : puzzle.bracketAt? [family.letter, '[', distance, ']'] =
      some (String.ofList [family.letter, '[', distance, ']']) :=
    (bracketAt?_eq_some_iff ..).2 ⟨family.letter, distance, List.prefix_rfl, hdistance,
      (isBracketLetter_iff ..).2 ⟨family, hfamily, rfl⟩, rfl⟩
  refine .cons ?_ ?_ .nil
  · unfold Lexeme.first?
    rw [hname, hbracket]
  · simp [Lexeme.text, Token.text]

end Puzzle.WellFormed

/-- The text of a phrase splits into the lexemes of the phrase. -/
theorem Phrase.splits_text {puzzle : Puzzle} (wf : puzzle.WellFormed) {level : Level}
    (phrase : Phrase level) (h : phrase.Admitted puzzle) :
    Splits puzzle phrase.text phrase.lexemes := by
  induction phrase with
  | number digits => exact wf.splits_number h.1 fun c hc => (h.2 c hc).1
  | «variable» name =>
      cases h with
      | word hentry => exact wf.splits_word hentry
      | bracket hfamily hrange =>
          have := wf.splits_bracket hfamily ((isDistance_iff _).2 hrange)
          simpa [text, lexemes] using this
  | group inner ih =>
      exact .opening wf.unmarked ((ih h).append wf.unmarked (by decide)
        (.closing wf.unmarked .nil))
  | factor body ih => exact ih h
  | times lhs rhs ihl ihr =>
      exact (ihl h.1).append wf.unmarked (by decide) (.operator wf.unmarked .mul (ihr h.2))
  | product body ih => exact ih h
  | join lhs op additive rhs ihl ihr =>
      exact (ihl h.1).append wf.unmarked (isMark_sign op) (.operator wf.unmarked op (ihr h.2))

end HatCircle
