import HatCircle.Proofs.Compilation

/-!
# What the lexer keeps and where it stops

The lexemes of a text make up the text, and no two numbers stand side by side, since a number
takes all digits there are (`Splits.numbersApart`). Cutting a text behind a lexeme leaves the
lexeme as it is (`first?_of_append`). So when the lexer stops at a character, what it has read
before is a text that splits on its own, and nothing that could be a lexeme begins at the
character (`lexAt_eq_error`).

Names are looked for by length, so the order of the table does not matter (`nameAt?_congr`).
`scan` reads a text in rounds of one lexeme, whatever the lexeme takes. As long as no name is
empty, it ends after as many rounds as the text has characters, with the result of the lexer
(`scan_eq`); an empty name takes a round and no character, and no number of rounds is enough
(`scan_of_empty_name`).
-/

namespace HatCircle

/-! ### Numbers -/

def Lexeme.isNumber : Lexeme → Bool
  | .token (.number _) => true
  | _ => false

/-- A number at the start of a text takes all the digits there. -/
theorem first?_number {puzzle : Puzzle} {c : Char} {rest : List Char} {lexeme : Lexeme}
    (h : Lexeme.first? puzzle c rest = some lexeme) (hnumber : lexeme.isNumber = true) :
    c.isDigit = true ∧ lexeme.text.toList = c :: rest.takeWhile Char.isDigit := by
  unfold Lexeme.first? at h
  split at h
  · cases h
    cases hnumber
  · split at h
    · cases h
      cases hnumber
    · split at h
      · rename_i hdigit
        cases h
        exact ⟨hdigit, by simp only [Lexeme.text, Token.text, String.toList_ofList]⟩
      · split at h
        · cases h
          cases hnumber
        · split at h
          · cases h
            cases hnumber
          · obtain ⟨op, -, rfl⟩ := Option.map_eq_some_iff.1 h
            cases hnumber

theorem not_isDigit_of_dropWhile {c : Char} {rest tail : List Char}
    (h : rest.dropWhile Char.isDigit = c :: tail) : c.isDigit = false := by
  have hhead := List.head?_dropWhile_not Char.isDigit rest
  rw [h] at hhead
  exact hhead

/-- Between two numbers there is something else. -/
theorem Splits.numbersApart {puzzle : Puzzle} {text : List Char} {lexemes : List Lexeme}
    (h : Splits puzzle text lexemes) :
    lexemes.IsChain fun a b => ¬ (a.isNumber = true ∧ b.isNumber = true) := by
  induction h with
  | nil => exact .nil
  | @cons c rest tail lexeme lexemes hfirst htext hothers ih =>
      rw [List.isChain_cons]
      refine ⟨?_, ih⟩
      rintro next hnext ⟨hnumber, hnumber'⟩
      obtain ⟨-, hspell⟩ := first?_number hfirst hnumber
      rw [hspell, List.cons_append, List.cons.injEq] at htext
      -- the second number would begin with a digit that the first one has left
      cases hothers with
      | nil => cases hnext
      | @cons d more _ _ _ hsecond _ _ =>
          obtain rfl := Option.some.inj hnext
          obtain ⟨hdigit, -⟩ := first?_number hsecond hnumber'
          have hdrop : rest.dropWhile Char.isDigit = d :: more := by
            have hboth := List.takeWhile_append_dropWhile (p := Char.isDigit) (l := rest)
            exact List.append_cancel_left (hboth.trans htext.2)
          rw [not_isDigit_of_dropWhile hdrop] at hdigit
          cases hdigit

/-! ### Cutting a text behind a lexeme -/

section Cut

variable {puzzle : Puzzle} {text left : List Char}

theorem Puzzle.BeginsWith.append {name : String} (h : puzzle.BeginsWith text name)
    (left : List Char) : puzzle.BeginsWith (text ++ left) name :=
  ⟨h.1, h.2.trans (List.prefix_append text left)⟩

theorem nameAt?_of_append {name : String} (h : puzzle.nameAt? (text ++ left) = some name)
    (hlength : name.length ≤ text.length) : puzzle.nameAt? text = some name := by
  rw [nameAt?_eq_some_iff] at h ⊢
  obtain ⟨⟨hlisted, hpre⟩, hlongest⟩ := h
  have hshort : name.toList <+: text :=
    List.prefix_of_prefix_length_le hpre (List.prefix_append text left)
      (by rwa [String.length_toList])
  refine ⟨⟨hlisted, hshort⟩, ?_⟩
  intro other hother
  exact hlongest other (hother.append left)

theorem nameAt?_eq_none_of_append (h : puzzle.nameAt? (text ++ left) = none) :
    puzzle.nameAt? text = none := by
  rw [nameAt?_eq_none_iff] at h ⊢
  intro name hname
  exact h name (hname.append left)

theorem bracketAt?_of_append {name : String} (h : puzzle.bracketAt? (text ++ left) = some name)
    (hlength : name.length ≤ text.length) : puzzle.bracketAt? text = some name := by
  rw [bracketAt?_eq_some_iff] at h ⊢
  obtain ⟨letter, distance, hpre, hdistance, hletter, rfl⟩ := h
  refine ⟨letter, distance, ?_, hdistance, hletter, rfl⟩
  apply List.prefix_of_prefix_length_le hpre (List.prefix_append text left)
  rwa [← String.length_toList, String.toList_ofList] at hlength

theorem bracketAt?_eq_none_of_append (h : puzzle.bracketAt? (text ++ left) = none) :
    puzzle.bracketAt? text = none := by
  rw [Option.eq_none_iff_forall_not_mem] at h ⊢
  intro name hname
  obtain ⟨letter, distance, hpre, hdistance, hletter, rfl⟩ := (bracketAt?_eq_some_iff ..).1 hname
  exact h _ ((bracketAt?_eq_some_iff ..).2
    ⟨letter, distance, hpre.trans (List.prefix_append text left), hdistance, hletter, rfl⟩)

/-- A run of digits that ends where the text is cut, or before, is the run of what is left. -/
theorem takeWhile_of_append {α : Type} {p : α → Bool} {rest left : List α}
    (h : ((rest ++ left).takeWhile p).length ≤ rest.length) :
    (rest ++ left).takeWhile p = rest.takeWhile p := by
  rw [List.takeWhile_append] at h ⊢
  split at h
  · rename_i hall
    rw [List.length_append] at h
    have hnil : left.takeWhile p = [] := List.length_eq_zero_iff.1 (by omega)
    have hself : rest.takeWhile p = rest := (List.takeWhile_prefix p).eq_of_length hall
    rw [if_pos hall, hnil, List.append_nil, hself]
  · rename_i hnot
    rw [if_neg hnot]

/-- Cutting a text behind its first lexeme, or further on, leaves that lexeme. -/
theorem first?_of_append {c : Char} {rest : List Char} {lexeme : Lexeme}
    (h : Lexeme.first? puzzle c (rest ++ left) = some lexeme)
    (hlength : lexeme.text.length ≤ rest.length + 1) :
    Lexeme.first? puzzle c rest = some lexeme := by
  unfold Lexeme.first? at h ⊢
  rw [← List.cons_append] at h
  cases hname : puzzle.nameAt? (c :: rest ++ left) with
  | some name =>
      rw [hname] at h
      cases h
      rw [nameAt?_of_append hname hlength]
  | none =>
      rw [hname] at h
      rw [nameAt?_eq_none_of_append hname]
      cases hbracket : puzzle.bracketAt? (c :: rest ++ left) with
      | some name =>
          rw [hbracket] at h
          cases h
          simp only [bracketAt?_of_append hbracket hlength]
      | none =>
          rw [hbracket] at h
          simp only [bracketAt?_eq_none_of_append hbracket]
          by_cases hdigit : c.isDigit = true
          · simp only [hdigit, if_true] at h ⊢
            cases h
            rw [← String.length_toList] at hlength
            simp only [Lexeme.text, Token.text, String.toList_ofList, List.length_cons] at hlength
            rw [takeWhile_of_append (Nat.le_of_succ_le_succ hlength)]
          · simpa only [hdigit, Bool.false_eq_true, if_false] using h

end Cut

/-! ### Where the lexer stops -/

/-- A lexer that stops has read a text that splits on its own, and it stops at the character
behind that text, with which no lexeme begins. -/
theorem lexAt_eq_error {puzzle : Puzzle} (hnames : ∀ entry ∈ puzzle.vocabulary, entry.name ≠ "")
    {position : Nat} {text : List Char} {error : LexError}
    (h : lexAt puzzle position text = .error error) :
    ∃ front rest lexemes, text = front ++ error.char :: rest ∧
      error.position = position + front.length ∧ Splits puzzle front lexemes ∧
      Lexeme.first? puzzle error.char rest = none := by
  fun_induction lexAt puzzle position text with
  | case1 => cases h
  | case2 position c rest hnone =>
      obtain rfl := Except.error.inj h
      exact ⟨[], rest, [], rfl, rfl, .nil, hnone⟩
  | case3 position c rest lexeme hfirst width hzero =>
      have hnil := List.length_eq_zero_iff.1 (String.length_toList.trans hzero)
      exact absurd hnil ((first?_eq_some hfirst).1.text_ne_nil hnames)
  | case4 position c rest lexeme hfirst width hwidth ih =>
      obtain ⟨hlexed, tail, htail⟩ := first?_eq_some hfirst
      rw [drop_eq_of_text htail.symm] at ih h
      cases hrest : lexAt puzzle (position + width) tail with
      | ok others =>
          rw [hrest] at h
          cases h
      | error found =>
          rw [hrest] at h
          obtain rfl := Except.error.inj h
          obtain ⟨front, back, lexemes, rfl, hposition, hsplits, hstop⟩ := ih hrest
          obtain ⟨d, more, hmore⟩ := List.exists_cons_of_ne_nil (hlexed.text_ne_nil hnames)
          have hspell : lexeme.text.length = more.length + 1 := by
            rw [← String.length_toList, hmore, List.length_cons]
          rw [hmore, List.cons_append, List.cons.injEq] at htail
          obtain ⟨rfl, rfl⟩ := htail
          have hcut : Lexeme.first? puzzle d (more ++ front) = some lexeme := by
            rw [← List.append_assoc] at hfirst
            apply first?_of_append hfirst
            rw [hspell, List.length_append]
            omega
          refine ⟨d :: (more ++ front), back, lexeme :: lexemes, ?_, ?_, ?_, hstop⟩
          · simp only [List.cons_append, List.append_assoc]
          · rw [hposition, List.length_cons, List.length_append]
            omega
          · exact .cons hcut (by rw [hmore, List.cons_append]) hsplits

/-- Where no lexeme begins, there is no variable, no digit, no parenthesis and no operator. -/
theorem of_first?_eq_none {puzzle : Puzzle} {c : Char} {rest : List Char}
    (h : Lexeme.first? puzzle c rest = none) :
    (∀ name, puzzle.IsVariable name → ¬ name.toList <+: c :: rest) ∧
      c.isDigit = false ∧ isMark c = false := by
  unfold Lexeme.first? at h
  split at h
  · cases h
  · rename_i hname
    split at h
    · cases h
    · rename_i hbracket
      split at h
      · cases h
      · rename_i hdigit
        split at h
        · cases h
        · rename_i hopening
          split at h
          · cases h
          · rename_i hclosing
            rw [Option.map_eq_none_iff] at h
            rw [nameAt?_eq_none_iff] at hname
            refine ⟨?_, by simpa using hdigit, by simp [isMark, isOperator, hopening, hclosing, h]⟩
            rintro name hvariable hpre
            cases hvariable with
            | @word entry hentry => exact hname _ ⟨⟨entry, hentry, rfl⟩, hpre⟩
            | bracket hfamily hrange =>
                have hfound := (bracketAt?_eq_some_iff puzzle (c :: rest) _).2
                  ⟨_, _, by simpa using hpre, (isDistance_iff _).2 hrange,
                    (isBracketLetter_iff ..).2 ⟨_, hfamily, rfl⟩, rfl⟩
                rw [hbracket] at hfound
                cases hfound

/-! ### The order of the names -/

/-- Which name is found depends on the names alone, not on their order or number. -/
theorem nameAt?_congr {puzzle other : Puzzle}
    (h : ∀ name, (∃ entry ∈ puzzle.vocabulary, entry.name = name) ↔
      ∃ entry ∈ other.vocabulary, entry.name = name) (text : List Char) :
    puzzle.nameAt? text = other.nameAt? text := by
  have hbegins : ∀ name, puzzle.BeginsWith text name ↔ other.BeginsWith text name := by
    intro name
    exact and_congr_left fun _ => h name
  apply Option.ext
  intro name
  simp only [nameAt?_eq_some_iff, hbegins]

theorem lexAt_congr {puzzle other : Puzzle}
    (h : ∀ c rest, Lexeme.first? puzzle c rest = Lexeme.first? other c rest) (position : Nat)
    (text : List Char) : lexAt puzzle position text = lexAt other position text := by
  fun_induction lexAt puzzle position text with
  | case1 => rw [lexAt]
  | case2 position c rest hnone =>
      rw [h] at hnone
      rw [lexAt, hnone]
  | case3 position c rest lexeme hfirst width hzero =>
      rw [h] at hfirst
      rw [lexAt, hfirst]
      exact (if_pos hzero).symm
  | case4 position c rest lexeme hfirst width hwidth ih =>
      rw [h] at hfirst
      rw [ih, lexAt, hfirst]
      exact (if_neg hwidth).symm

theorem lex_of_perm {puzzle : Puzzle} {table : List NamedVariable}
    (h : table.Perm puzzle.vocabulary) (text : List Char) :
    lex { puzzle with vocabulary := table } text = lex puzzle text := by
  apply lexAt_congr
  intro c rest
  have hname : Puzzle.nameAt? { puzzle with vocabulary := table } (c :: rest) =
      puzzle.nameAt? (c :: rest) := by
    apply nameAt?_congr
    intro name
    simp only [h.mem_iff]
  unfold Lexeme.first?
  rw [hname]
  rfl

/-! ### Reading in rounds -/

/-- Reads the lexemes of a text that stands `position` characters into the whole, one in each
round. There is no result if the rounds do not suffice. -/
def scan (puzzle : Puzzle) : Nat → Nat → List Char → ExceptT LexError Option (List Lexeme)
  | _, _, [] => return []
  | 0, _, _ :: _ => none
  | rounds + 1, position, c :: rest =>
    match Lexeme.first? puzzle c rest with
    | none => throw ⟨c, position⟩
    | some lexeme => do
      let width := lexeme.text.length
      let lexemes ← scan puzzle rounds (position + width) ((c :: rest).drop width)
      return lexeme :: lexemes

section Rounds

variable {puzzle : Puzzle}

/-- Every round takes a character at least, so a text is read in as many rounds as it has
characters, and what is read is what the lexer reads. -/
theorem scan_eq (hnames : ∀ entry ∈ puzzle.vocabulary, entry.name ≠ "") {rounds : Nat}
    {text : List Char} (hrounds : text.length ≤ rounds) (position : Nat) :
    scan puzzle rounds position text = some (lexAt puzzle position text) := by
  induction rounds generalizing position text with
  | zero =>
      obtain rfl := List.length_eq_zero_iff.1 (Nat.le_zero.1 hrounds)
      rw [scan, lexAt]
      rfl
  | succ rounds ih =>
      cases text with
      | nil =>
          rw [scan, lexAt]
          rfl
      | cons c rest =>
          rw [scan, lexAt]
          cases hlexeme : Lexeme.first? puzzle c rest with
          | none => rfl
          | some lexeme =>
              obtain ⟨hlexed, tail, htail⟩ := first?_eq_some hlexeme
              have hpos := List.length_pos_of_ne_nil (hlexed.text_ne_nil hnames)
              have hlength := congrArg List.length htail
              rw [List.length_append, List.length_cons] at hlength
              rw [List.length_cons] at hrounds
              rw [String.length_toList] at hpos hlength
              have hshorter : tail.length ≤ rounds := by omega
              simp only [drop_eq_of_text htail.symm, Nat.ne_of_gt hpos, if_false]
              apply bind_eq_some (ih hshorter _)
              intro lexemes _
              rfl

/-- Where nothing but the empty name begins, no number of rounds leads on. -/
theorem scan_of_empty_name {c : Char} {rest : List Char}
    (h : puzzle.nameAt? (c :: rest) = some "") (rounds position : Nat) :
    scan puzzle rounds position (c :: rest) = none := by
  have hfirst : Lexeme.first? puzzle c rest = some (.token (.variable "")) := by
    rw [Lexeme.first?, h]
  induction rounds generalizing position with
  | zero => rfl
  | succ rounds ih =>
      rw [scan, hfirst]
      exact congrArg (· >>= _) (ih position)

end Rounds

/-! ### The lexer -/

/-- The lexemes make up the text. They are variables of the puzzle, runs of digits, single
operators and parentheses, and between two numbers there is something else. -/
structure Puzzle.Lexes (puzzle : Puzzle) (text : List Char) (lexemes : List Lexeme) : Prop where
  spelling : Lexeme.spell lexemes = text
  names : ∀ name, .token (.variable name) ∈ lexemes → puzzle.IsVariable name
  digits : ∀ run : String, .token (.number run) ∈ lexemes →
    run.toList ≠ [] ∧ ∀ c ∈ run.toList, c.isDigit = true
  operators : ∀ op, .token (.operator op) ∈ lexemes → op.symbol ∈ ["+", "-", "×"]
  numbersApart : lexemes.IsChain fun a b => ¬ (a.isNumber = true ∧ b.isNumber = true)

/-- The text up to the position of the error splits on its own, and the character there begins
no variable of the puzzle and is neither a digit nor a parenthesis nor an operator. -/
structure Puzzle.StopsAt (puzzle : Puzzle) (text : List Char) (error : LexError) : Prop where
  char : text[error.position]? = some error.char
  before : ∃ lexemes, lex puzzle (text.take error.position) = .ok lexemes
  names : ∀ name, puzzle.IsVariable name → ¬ name.toList <+: text.drop error.position
  digit : error.char.isDigit = false
  mark : isMark error.char = false

theorem Splits.lexes {puzzle : Puzzle} {text : List Char} {lexemes : List Lexeme}
    (h : Splits puzzle text lexemes) : puzzle.Lexes text lexemes where
  spelling := h.spell_eq
  names name hmem := h.lexed _ hmem
  digits run hmem := h.lexed _ hmem
  operators op _ := by cases op <;> decide
  numbersApart := h.numbersApart

theorem stopsAt_of_lex {puzzle : Puzzle} (hnames : ∀ entry ∈ puzzle.vocabulary, entry.name ≠ "")
    {text : List Char} {error : LexError} (h : lex puzzle text = .error error) :
    puzzle.StopsAt text error := by
  obtain ⟨front, rest, lexemes, rfl, hposition, hsplits, hstop⟩ := lexAt_eq_error hnames h
  rw [Nat.zero_add] at hposition
  obtain ⟨hvariable, hdigit, hmark⟩ := of_first?_eq_none hstop
  refine ⟨?_, ⟨lexemes, ?_⟩, ?_, hdigit, hmark⟩
  · simp [hposition]
  · rw [hposition, List.take_left]
    exact (lexAt_eq_ok_iff ..).2 hsplits
  · rwa [hposition, List.drop_left]

/-- If no name is empty, a text is read in as many rounds as it has characters. Either it is
split into lexemes and nothing is lost, or the lexer stops at the first place at which nothing
begins that it knows. The order of the names makes no difference. -/
theorem lex_loses_nothing {puzzle : Puzzle}
    (hnames : ∀ entry ∈ puzzle.vocabulary, entry.name ≠ "") (text : List Char) :
    (∀ rounds, text.length ≤ rounds → scan puzzle rounds 0 text = some (lex puzzle text)) ∧
      (∀ lexemes, lex puzzle text = .ok lexemes → puzzle.Lexes text lexemes) ∧
      (∀ error, lex puzzle text = .error error → puzzle.StopsAt text error) ∧
      ∀ table, table.Perm puzzle.vocabulary →
        lex { puzzle with vocabulary := table } text = lex puzzle text := by
  refine ⟨?_, ?_, ?_, ?_⟩
  · intro rounds hrounds
    exact scan_eq hnames hrounds 0
  · intro lexemes hlexemes
    exact ((lexAt_eq_ok_iff ..).1 hlexemes).lexes
  · intro error herror
    exact stopsAt_of_lex hnames herror
  · intro table htable
    exact lex_of_perm htable text

/-- Names that overlap, hold digits and brackets, or are not ASCII: `ab` is taken before `a`
and `b2`, and the run of digits behind `é[2` begins with the next digit. The second text stops
at its seventh character. -/
theorem lex_loses_nothing_tangled :
    (∀ entry ∈ Puzzle.tangled.vocabulary, entry.name ≠ "") ∧
      ("ab2é[212".toList.length ≤ 8 ∧ scan .tangled 8 0 "ab2é[212".toList =
        some (.ok [.token (.variable "ab"), .token (.number "2"), .token (.variable "é[2"),
          .token (.number "12")])) ∧
      Puzzle.tangled.Lexes "ab2é[212".toList [.token (.variable "ab"), .token (.number "2"),
        .token (.variable "é[2"), .token (.number "12")] ∧
      (lex .tangled "12b[3]x9".toList = .error ⟨'x', 6⟩ ∧
        Puzzle.tangled.StopsAt "12b[3]x9".toList ⟨'x', 6⟩) ∧
      Puzzle.tangled.vocabulary.reverse.Perm Puzzle.tangled.vocabulary ∧
      lex { Puzzle.tangled with vocabulary := Puzzle.tangled.vocabulary.reverse }
        "12b[3]x9".toList = .error ⟨'x', 6⟩ := by
  have hnames : ∀ entry ∈ Puzzle.tangled.vocabulary, entry.name ≠ "" := by decide
  have hok : lex .tangled "ab2é[212".toList = .ok [.token (.variable "ab"),
      .token (.number "2"), .token (.variable "é[2"), .token (.number "12")] := by
    decide +kernel
  have herror : lex .tangled "12b[3]x9".toList = .error ⟨'x', 6⟩ := by decide +kernel
  have hlength : "ab2é[212".toList.length ≤ 8 := by decide
  have hperm : Puzzle.tangled.vocabulary.reverse.Perm Puzzle.tangled.vocabulary :=
    List.reverse_perm _
  obtain ⟨hscan, hlexes, -, -⟩ := lex_loses_nothing hnames "ab2é[212".toList
  obtain ⟨-, -, hstops, htable⟩ := lex_loses_nothing hnames "12b[3]x9".toList
  refine ⟨hnames, ⟨hlength, ?_⟩, hlexes _ hok, ⟨herror, hstops _ herror⟩, hperm, ?_⟩
  · rw [hscan 8 hlength, hok]
  · rw [htable _ hperm, herror]

end HatCircle
