import HatCircle.Command.Basic
import HatCircle.Proofs.Numerals
import HatCircle.Proofs.Recognition

/-!
# Command lines

A command line consists of pieces, in any order: an option with its value in the same word or in
the next one, an option that takes no value, and an operand. Two hyphens may end them, and all
words behind these are operands (`CommandLine.words`). The reader accepts the words of the
command lines in which every piece fits the grammar and no option stands twice, and nothing else
(`Arguments.read_eq_ok_iff`). It takes one piece at a time, so there is one lemma for a piece that
is read (`Arguments.readOnto_piece`) and one for all that a reading can begin with
(`Arguments.reads_or_gives`).

The words of a search ask for what its options and its operand say, whatever their order
(`Command.ofWords_search_iff`).
-/

namespace HatCircle

/-! ### Words -/

/-- A text that is no option: it does not begin with a hyphen, or that is all it has. -/
def IsOperand (text : String) : Prop :=
  text = "-" ∨ text.toList.head? ≠ some '-'

instance (text : String) : Decidable (IsOperand text) :=
  inferInstanceAs (Decidable (_ ∨ _))

namespace Word

/-- What is written for a word. -/
def text : Word → String
  | .stop => "--"
  | .option name none => "--" ++ name
  | .option name (some value) => "--" ++ name ++ "=" ++ value
  | .cluster text | .plain text => text

theorem text_ofText (written : String) : (ofText written).text = written := by
  apply String.toList_injective
  unfold ofText
  split
  · rename_i heq
    rw [heq]
    rfl
  · rename_i rest _ heq
    rw [heq]
    have hparts := List.takeWhile_append_dropWhile (p := (· != '=')) (l := rest)
    split
    · rename_i hdrop
      rw [hdrop, List.append_nil] at hparts
      simp [text, hparts]
    · rename_i c value hdrop
      have hc : c = '=' := by
        simpa [hdrop] using List.head_dropWhile_not (· != '=') (l := rest) (by simp [hdrop])
      rw [hdrop, hc] at hparts
      simp [text, hparts]
  · rfl
  · rfl

theorem ofText_hyphens {text : String} {c : Char} {rest : List Char}
    (h : text.toList = '-' :: '-' :: c :: rest) : ofText text =
      .option (String.ofList ((c :: rest).takeWhile (· != '=')))
        (((c :: rest).dropWhile (· != '=')).tail?.map String.ofList) := by
  unfold ofText
  rw [h]
  cases hdrop : (c :: rest).dropWhile (· != '=') with
  | nil => simp only [hdrop, List.tail?_nil, Option.map_none]
  | cons d value => simp only [hdrop, List.tail?_cons, Option.map_some]

section Options

variable {name : String}

theorem bne_of_notMem (h : '=' ∉ name.toList) : ∀ c ∈ name.toList, (c != '=') = true := by
  intro c hc
  exact bne_iff_ne.2 fun heq => h (heq ▸ hc)

theorem ofText_joined (h : '=' ∉ name.toList) (value : String) :
    ofText ("--" ++ name ++ "=" ++ value) = .option name (some value) := by
  obtain ⟨c, rest, hrest⟩ : ∃ c rest, name.toList ++ '=' :: value.toList = c :: rest :=
    List.exists_cons_of_ne_nil (by simp)
  rw [ofText_hyphens (by simpa using hrest), ← hrest,
    List.takeWhile_append_of_pos (bne_of_notMem h), List.takeWhile_cons_of_neg (by decide),
    List.dropWhile_append_of_pos (bne_of_notMem h), List.dropWhile_cons_of_neg (by decide),
    List.append_nil]
  simp

theorem ofText_bare (hne : name ≠ "") (h : '=' ∉ name.toList) :
    ofText ("--" ++ name) = .option name none := by
  obtain ⟨c, rest, hrest⟩ : ∃ c rest, name.toList = c :: rest :=
    List.exists_cons_of_ne_nil (by simpa using hne)
  rw [ofText_hyphens (by simpa using hrest), ← hrest,
    List.takeWhile_eq_self_iff.2 (bne_of_notMem h), List.dropWhile_eq_nil_iff.2 (bne_of_notMem h)]
  simp

end Options

theorem ofText_operand {text : String} (h : IsOperand text) : ofText text = .plain text := by
  obtain rfl | h := h
  · decide +kernel
  · unfold ofText
    split
    · rename_i heq
      simp [heq] at h
    · rename_i heq
      simp [heq] at h
    · rename_i heq
      simp [heq] at h
    · rfl

theorem isOperand_of_ofText {text operand : String} (h : ofText text = .plain operand) :
    IsOperand operand := by
  obtain rfl : operand = text := (text_ofText text).symm ▸ congrArg Word.text h.symm
  unfold ofText at h
  split at h
  · cases h
  · split at h <;> cases h
  · cases h
  · rename_i htwo hmore
    by_contra hno
    obtain ⟨hne, hhead⟩ := not_or.1 hno
    cases hlist : operand.toList with
    | nil => simp [hlist] at hhead
    | cons c rest =>
        obtain rfl : c = '-' := by simpa [hlist] using hhead
        cases rest with
        | nil => exact hne (String.toList_injective hlist)
        | cons d rest => exact hmore d rest hlist

end Word

/-! ### Pieces -/

/-- A piece of a command line. -/
inductive Piece where
  /-- An option with its value behind an equals sign. -/
  | joined (name value : String)
  /-- An option with its value in the next word. -/
  | apart (name value : String)
  /-- An option that takes no value. -/
  | flag (name : String)
  | operand (text : String)
deriving DecidableEq, Repr

namespace Piece

def words : Piece → List String
  | joined name value => ["--" ++ name ++ "=" ++ value]
  | apart name value => ["--" ++ name, value]
  | flag name => ["--" ++ name]
  | operand text => [text]

/-- The option that the piece gives a value, with this value. -/
def value? : Piece → Option (String × String)
  | joined name value | apart name value => some (name, value)
  | _ => none

def flag? : Piece → Option String
  | flag name => some name
  | _ => none

def operand? : Piece → Option String
  | operand text => some text
  | _ => none

/-- The piece has a place in the grammar, and what would be an option is not taken for a value or
for an operand. -/
def Fits (grammar : Grammar) : Piece → Prop
  | joined name _ => name ∈ grammar.valued ∧ name ∉ grammar.flags
  | apart name value => (name ∈ grammar.valued ∧ name ∉ grammar.flags) ∧ IsOperand value
  | flag name => name ∈ grammar.flags
  | operand text => IsOperand text

instance (grammar : Grammar) : DecidablePred (Fits grammar)
  | joined _ _ => inferInstanceAs (Decidable (_ ∧ _))
  | apart _ _ => inferInstanceAs (Decidable ((_ ∧ _) ∧ _))
  | flag _ => inferInstanceAs (Decidable (_ ∈ _))
  | operand text => inferInstanceAs (Decidable (IsOperand text))

end Piece

/-- A name that can stand behind two hyphens and before an equals sign. -/
def OptionName (name : String) : Prop :=
  name ≠ "" ∧ '=' ∉ name.toList

instance (name : String) : Decidable (OptionName name) :=
  inferInstanceAs (Decidable (_ ∧ _))

/-- Every option of the grammar can be written. -/
def Grammar.Named (grammar : Grammar) : Prop :=
  ∀ name ∈ grammar.valued ++ grammar.flags, OptionName name

instance (grammar : Grammar) : Decidable grammar.Named :=
  inferInstanceAs (Decidable (∀ name ∈ _, _))

/-- The pieces of a command line, and what stands behind two hyphens if these stand there. -/
structure CommandLine where
  pieces : List Piece
  behind : Option (List String) := none
deriving DecidableEq, Repr

namespace CommandLine

def words (line : CommandLine) : List String :=
  line.pieces.flatMap Piece.words ++ line.behind.elim [] ("--" :: ·)

theorem words_nil : words ⟨[], none⟩ = [] :=
  rfl

theorem words_behind (operands : List String) :
    words ⟨[], some operands⟩ = "--" :: operands :=
  rfl

theorem words_cons (piece : Piece) (pieces : List Piece) (behind : Option (List String)) :
    words ⟨piece :: pieces, behind⟩ = piece.words ++ words ⟨pieces, behind⟩ := by
  rw [words, List.flatMap_cons, List.append_assoc]
  rfl

def values (line : CommandLine) : List (String × String) :=
  line.pieces.filterMap Piece.value?

def flags (line : CommandLine) : List String :=
  line.pieces.filterMap Piece.flag?

def operands (line : CommandLine) : List String :=
  line.pieces.filterMap Piece.operand? ++ line.behind.getD []

/-- The value of an option. -/
def value? (line : CommandLine) (option : String) : Option String :=
  line.values.lookup option

/-- Every piece fits the grammar, and no option stands twice. -/
structure Fits (grammar : Grammar) (line : CommandLine) : Prop where
  pieces : ∀ piece ∈ line.pieces, piece.Fits grammar
  values_once : (line.values.map (·.1)).Nodup
  flags_once : line.flags.Nodup

end CommandLine

/-! ### Reading pieces -/

namespace Arguments

variable {grammar : Grammar} {arguments result : Arguments}

/-- What has been read once the piece has. -/
def give (arguments : Arguments) : Piece → Arguments
  | .joined name value | .apart name value =>
    { arguments with values := (name, value) :: arguments.values }
  | .flag name => { arguments with flags := name :: arguments.flags }
  | .operand text => arguments.addOperands [text]

/-- No option stands twice in what has been read. -/
structure Once (arguments : Arguments) : Prop where
  values : (arguments.values.map (·.1)).Nodup
  flags : arguments.flags.Nodup

theorem value?_eq_none_iff {option : String} :
    arguments.value? option = none ↔ option ∉ arguments.values.map (·.1) := by
  rw [value?, List.lookup_eq_none_iff, List.mem_map]
  constructor
  · rintro h ⟨entry, hmem, rfl⟩
    exact bne_iff_ne.1 (h entry hmem) rfl
  · intro h entry hmem
    exact bne_iff_ne.2 fun heq => h ⟨entry, hmem, heq.symm⟩

theorem addValue_eq_ok_iff {name value : String} : arguments.addValue name value = .ok result ↔
    name ∉ arguments.values.map (·.1) ∧ arguments.give (.joined name value) = result := by
  rw [← value?_eq_none_iff, addValue, give]
  cases arguments.value? name <;> simp

theorem addFlag_eq_ok_iff {name : String} : arguments.addFlag name = .ok result ↔
    name ∉ arguments.flags ∧ arguments.give (.flag name) = result := by
  rw [addFlag, give]
  split <;> simp [*]

/-- A piece that fits and gives nothing twice is read. -/
theorem readOnto_piece (hnamed : grammar.Named) {piece : Piece} (hfits : piece.Fits grammar)
    (honce : (arguments.give piece).Once) (rest : List String) :
    readOnto grammar arguments (piece.words ++ rest) =
      readOnto grammar (arguments.give piece) rest := by
  cases piece with
  | joined name value =>
      obtain ⟨hvalued, hflag⟩ := hfits
      obtain ⟨-, hname⟩ := hnamed name (List.mem_append_left _ hvalued)
      have hadd : arguments.addValue name value = .ok _ :=
        addValue_eq_ok_iff.2 ⟨(List.nodup_cons.1 honce.values).1, rfl⟩
      rw [Piece.words, List.singleton_append, readOnto, Word.ofText_joined hname]
      simp only [if_neg hflag, if_pos hvalued, hadd]
      rfl
  | apart name value =>
      obtain ⟨⟨hvalued, hflag⟩, hvalue⟩ := hfits
      obtain ⟨hne, hname⟩ := hnamed name (List.mem_append_left _ hvalued)
      have hadd : arguments.addValue name value = .ok _ :=
        addValue_eq_ok_iff.2 ⟨(List.nodup_cons.1 honce.values).1, rfl⟩
      rw [Piece.words, List.cons_append, List.singleton_append, readOnto,
        Word.ofText_bare hne hname]
      simp only [if_neg hflag, if_pos hvalued, Word.ofText_operand hvalue, hadd]
      rfl
  | flag name =>
      have hflag : name ∈ grammar.flags := hfits
      obtain ⟨hne, hname⟩ := hnamed name (List.mem_append_right _ hflag)
      have hadd : arguments.addFlag name = .ok _ :=
        addFlag_eq_ok_iff.2 ⟨(List.nodup_cons.1 honce.flags).1, rfl⟩
      rw [Piece.words, List.singleton_append, readOnto, Word.ofText_bare hne hname]
      simp only [if_pos hflag, hadd]
      rfl
  | operand text =>
      rw [Piece.words, List.singleton_append, readOnto, Word.ofText_operand hfits]
      rfl

/-- A piece has been read at the front of the words, and the rest is still to be read. -/
def Gives (grammar : Grammar) (arguments : Arguments) (words : List String)
    (result : Arguments) : Prop :=
  ∃ piece rest, words = Piece.words piece ++ rest ∧ piece.Fits grammar ∧
    (arguments.give piece).Once ∧ readOnto grammar (arguments.give piece) rest = .ok result

/-- A word for an option that is read is one, or it and the next one are. -/
theorem gives_of_option {text name : String} {held : Option String} {rest : List String}
    (honce : arguments.Once) (hword : Word.ofText text = .option name held)
    (h : readOnto grammar arguments (text :: rest) = .ok result) :
    Gives grammar arguments (text :: rest) result := by
  have htext := Word.text_ofText text
  rw [readOnto] at h
  rw [hword] at htext
  simp only [hword] at h
  by_cases hflag : name ∈ grammar.flags
  · rw [if_pos hflag] at h
    cases held with
    | some value => cases h
    | none =>
        obtain ⟨_, hadd, h⟩ := (bind_eq_ok_iff ..).1 h
        obtain ⟨hnew, rfl⟩ := addFlag_eq_ok_iff.1 hadd
        exact ⟨.flag name, rest, congrArg (· :: rest) htext.symm, hflag,
          ⟨honce.values, List.nodup_cons.2 ⟨hnew, honce.flags⟩⟩, h⟩
  · rw [if_neg hflag] at h
    by_cases hvalued : name ∈ grammar.valued
    · rw [if_pos hvalued] at h
      cases held with
      | some value =>
          obtain ⟨_, hadd, h⟩ := (bind_eq_ok_iff ..).1 h
          obtain ⟨hnew, rfl⟩ := addValue_eq_ok_iff.1 hadd
          exact ⟨.joined name value, rest, congrArg (· :: rest) htext.symm, ⟨hvalued, hflag⟩,
            ⟨List.nodup_cons.2 ⟨hnew, honce.values⟩, honce.flags⟩, h⟩
      | none =>
          cases rest with
          | nil => cases h
          | cons next rest =>
              have hnext := Word.text_ofText next
              cases hvalue : Word.ofText next with
              | plain value =>
                  simp only [hvalue] at h
                  rw [hvalue] at hnext
                  obtain ⟨_, hadd, h⟩ := (bind_eq_ok_iff ..).1 h
                  obtain ⟨hnew, rfl⟩ := addValue_eq_ok_iff.1 hadd
                  refine ⟨.apart name value, rest, ?_,
                    ⟨⟨hvalued, hflag⟩, Word.isOperand_of_ofText hvalue⟩,
                    ⟨List.nodup_cons.2 ⟨hnew, honce.values⟩, honce.flags⟩, h⟩
                  rw [← htext, ← hnext]
                  rfl
              | stop | option _ _ | cluster _ =>
                  simp only [hvalue] at h
                  cases h
    · rw [if_neg hvalued] at h
      cases h

/-- All that a reading can begin with: there is nothing left, or two hyphens end the options, or
a piece is read. -/
theorem reads_or_gives {words : List String} (honce : arguments.Once)
    (h : readOnto grammar arguments words = .ok result) :
    (words = [] ∧ result = arguments) ∨
      (∃ operands, words = "--" :: operands ∧ result = arguments.addOperands operands) ∨
      Gives grammar arguments words result := by
  cases words with
  | nil =>
      rw [readOnto] at h
      exact .inl ⟨rfl, (Except.ok.inj h).symm⟩
  | cons text rest =>
      refine .inr ?_
      have htext := Word.text_ofText text
      cases hword : Word.ofText text with
      | option name held => exact .inr (gives_of_option honce hword h)
      | stop =>
          rw [readOnto, hword] at h
          rw [hword] at htext
          exact .inl ⟨rest, congrArg (· :: rest) htext.symm, (Except.ok.inj h).symm⟩
      | plain operand =>
          rw [readOnto, hword] at h
          rw [hword] at htext
          exact .inr ⟨.operand operand, rest, congrArg (· :: rest) htext.symm,
            Word.isOperand_of_ofText hword, ⟨honce.values, honce.flags⟩, h⟩
      | cluster text =>
          rw [readOnto, hword] at h
          cases h

/-! ### Reading command lines -/

/-- What has been read once the whole line has. -/
def after (arguments : Arguments) (line : CommandLine) : Arguments where
  operands := arguments.operands ++ line.operands
  values := line.values.reverse ++ arguments.values
  flags := line.flags.reverse ++ arguments.flags

theorem after_nil (arguments : Arguments) : arguments.after ⟨[], none⟩ = arguments := by
  simp [after, CommandLine.operands, CommandLine.values, CommandLine.flags]

theorem after_behind (arguments : Arguments) (operands : List String) :
    arguments.after ⟨[], some operands⟩ = arguments.addOperands operands := by
  simp [after, addOperands, CommandLine.operands, CommandLine.values, CommandLine.flags]

theorem after_cons (arguments : Arguments) (piece : Piece) (pieces : List Piece)
    (behind : Option (List String)) : arguments.after ⟨piece :: pieces, behind⟩ =
      (arguments.give piece).after ⟨pieces, behind⟩ := by
  cases piece <;>
    simp [after, give, addOperands, CommandLine.operands, CommandLine.values, CommandLine.flags,
      List.filterMap_cons, Piece.value?, Piece.flag?, Piece.operand?]

theorem Once.of_after {line : CommandLine} (h : (arguments.after line).Once) : arguments.Once := by
  obtain ⟨hvalues, hflags⟩ := h
  rw [after, List.map_append] at hvalues
  exact ⟨hvalues.of_append_right, hflags.of_append_right⟩

theorem readOnto_words (hnamed : grammar.Named) {line : CommandLine}
    (hfits : ∀ piece ∈ line.pieces, piece.Fits grammar) (honce : (arguments.after line).Once) :
    readOnto grammar arguments line.words = .ok (arguments.after line) := by
  obtain ⟨pieces, behind⟩ := line
  induction pieces generalizing arguments with
  | nil =>
      cases behind with
      | none =>
          rw [after_nil, CommandLine.words_nil, readOnto]
      | some operands =>
          have hstop : Word.ofText "--" = .stop := by decide +kernel
          rw [after_behind, CommandLine.words_behind, readOnto, hstop]
  | cons piece pieces ih =>
      rw [after_cons] at honce ⊢
      obtain ⟨hpiece, hfits⟩ := List.forall_mem_cons.1 hfits
      rw [CommandLine.words_cons, readOnto_piece hnamed hpiece honce.of_after]
      exact ih hfits honce

theorem exists_line {words : List String} (honce : arguments.Once)
    (h : readOnto grammar arguments words = .ok result) :
    ∃ line : CommandLine, line.words = words ∧ (∀ piece ∈ line.pieces, piece.Fits grammar) ∧
      (arguments.after line).Once ∧ arguments.after line = result := by
  induction hlength : words.length using Nat.strong_induction_on generalizing arguments words with
  | h length ih =>
      subst hlength
      rcases reads_or_gives honce h with ⟨rfl, rfl⟩ | ⟨operands, rfl, rfl⟩ |
        ⟨piece, rest, rfl, hfits, honce', h'⟩
      · refine ⟨⟨[], none⟩, CommandLine.words_nil, by simp, ?_, after_nil _⟩
        rwa [after_nil]
      · refine ⟨⟨[], some operands⟩, CommandLine.words_behind operands, by simp, ?_,
          after_behind ..⟩
        rw [after_behind]
        exact ⟨honce.values, honce.flags⟩
      · have hshorter : rest.length < (piece.words ++ rest).length := by
          cases piece <;> simp [Piece.words]
        obtain ⟨⟨pieces, behind⟩, rfl, hpieces, hafter, rfl⟩ := ih _ hshorter honce' h' rfl
        refine ⟨⟨piece :: pieces, behind⟩, CommandLine.words_cons ..,
          List.forall_mem_cons.2 ⟨hfits, hpieces⟩, ?_, after_cons ..⟩
        rwa [after_cons]

end Arguments

/-- What a reading of the line leaves. -/
def CommandLine.arguments (line : CommandLine) : Arguments where
  operands := line.operands
  values := line.values.reverse
  flags := line.flags.reverse

theorem Arguments.after_empty (line : CommandLine) :
    ({} : Arguments).after line = line.arguments := by
  simp [after, CommandLine.arguments]

/-- The reader accepts the words of the command lines that fit, and leaves what these say. -/
theorem Arguments.read_eq_ok_iff {grammar : Grammar} (hnamed : grammar.Named)
    {words : List String} {arguments : Arguments} : read grammar words = .ok arguments ↔
      ∃ line : CommandLine, line.words = words ∧ line.Fits grammar ∧
        line.arguments = arguments := by
  constructor
  · intro h
    have hempty : Once {} := ⟨.nil, .nil⟩
    obtain ⟨line, rfl, hpieces, honce, rfl⟩ := exists_line hempty h
    rw [after_empty] at honce ⊢
    have hvalues := honce.values
    rw [CommandLine.arguments, List.map_reverse, List.nodup_reverse] at hvalues
    exact ⟨line, rfl, ⟨hpieces, hvalues, List.nodup_reverse.1 honce.flags⟩, rfl⟩
  · rintro ⟨line, rfl, hfits, rfl⟩
    rw [← after_empty]
    refine readOnto_words hnamed hfits.pieces ?_
    rw [after_empty]
    refine ⟨?_, List.nodup_reverse.2 hfits.flags_once⟩
    rw [CommandLine.arguments, List.map_reverse, List.nodup_reverse]
    exact hfits.values_once

/-- The last entry is the only one of its key, so it does not matter where a search begins. -/
theorem lookup_reverse {α β : Type} [BEq α] [LawfulBEq α] {entries : List (α × β)}
    (h : (entries.map (·.1)).Nodup) (key : α) :
    entries.reverse.lookup key = entries.lookup key := by
  induction entries with
  | nil => rfl
  | cons entry rest ih =>
      obtain ⟨hentry, hrest⟩ := List.nodup_cons.1 h
      rw [List.reverse_cons, List.lookup_append, ih hrest, List.lookup_cons, List.lookup_cons,
        List.lookup_nil]
      by_cases hkey : key = entry.1
      · have hnone : rest.lookup key = none := by
          refine List.lookup_eq_none_iff.2 fun other hmem => bne_iff_ne.2 fun heq => hentry ?_
          exact List.mem_map.2 ⟨other, hmem, heq.symm.trans hkey⟩
        rw [hnone, hkey, beq_self_eq_true]
        rfl
      · rw [beq_eq_false_iff_ne.2 hkey]
        exact Option.or_none

theorem CommandLine.Fits.value?_arguments {grammar : Grammar} {line : CommandLine}
    (h : line.Fits grammar) (option : String) :
    line.arguments.value? option = line.value? option :=
  lookup_reverse h.values_once option

/-! ### Searches -/

/-- The text of an option spells the number that is asked for, or neither is there. -/
def Spelled (value : Option String) (number : Option Nat) : Prop :=
  Option.Rel (fun text n => Numeral.Spells text.toList n ∧ n < UInt64.size) value number

/-- A number that is spelled has 64 bits, so it is the number of a seed. -/
theorem Spelled.toNat_ofNat {value : Option String} {number : Option Nat}
    (h : Spelled value number) : Spelled value ((number.map UInt64.ofNat).map UInt64.toNat) := by
  cases h with
  | none => exact .none
  | some h =>
      refine .some ?_
      rwa [UInt64.toNat_ofNat_of_lt' h.2]

/-- What a search is asked for on a command line. -/
structure CommandLine.Asks (line : CommandLine) (request : SearchRequest) : Prop where
  formula : line.operands = [request.formula]
  puzzle : PuzzleKind.ofText ((line.value? "puzzle").getD "ten") = .ok request.puzzle
  file : line.value? "config" = request.optionsFile
  file_named : request.optionsFile ≠ some ""
  budgetMs : Spelled (line.value? "budget-ms") request.overrides.budgetMs
  seed : Spelled (line.value? "seed") (request.overrides.seed.map UInt64.toNat)
  maxTrials : Spelled (line.value? "max-trials") request.overrides.maxTrials
  runs : Spelled (line.value? "runs") request.runs
  form : request.form = if "wire" ∈ line.flags then .wire else .full

namespace Arguments

variable {arguments : Arguments}

theorem formula_eq_ok_iff {text : String} :
    arguments.formula = .ok text ↔ arguments.operands = [text] := by
  rw [formula]
  split <;> simp [*]

theorem numberOf_eq_ok_iff {option value : String} {n : Nat} :
    numberOf option value = .ok n ↔ Numeral.Spells value.toList n ∧ n < UInt64.size := by
  rw [← Numeral.read_eq_ok_iff (by decide), numberOf]
  cases Numeral.read UInt64.size value.toList <;> simp

theorem mapM_eq_ok_iff {α β ε : Type} {read : α → Except ε β} {value : Option α}
    {result : Option β} :
    value.mapM read = .ok result ↔ Option.Rel (fun a b => read a = .ok b) value result := by
  cases value with
  | none =>
      rw [Option.mapM_none]
      constructor
      · intro h
        obtain rfl := Except.ok.inj h
        exact .none
      · rintro ⟨⟩
        rfl
  | some a =>
      rw [Option.mapM_some, map_eq_pure_bind, bind_eq_ok_iff]
      constructor
      · rintro ⟨b, hread, h⟩
        obtain rfl := Except.ok.inj h
        exact .some hread
      · rintro ⟨hread⟩
        exact ⟨_, hread, rfl⟩

theorem number?_eq_ok_iff {option : String} {number : Option Nat} :
    arguments.number? option = .ok number ↔ Spelled (arguments.value? option) number := by
  simp only [number?, mapM_eq_ok_iff, numberOf_eq_ok_iff, Spelled]

theorem path?_eq_ok_iff {option : String} {path : Option String} :
    arguments.path? option = .ok path ↔ arguments.value? option = path ∧ path ≠ some "" := by
  rw [path?, mapM_eq_ok_iff]
  generalize arguments.value? option = value
  cases value with
  | none =>
      constructor
      · rintro ⟨⟩
        exact ⟨rfl, by simp⟩
      · rintro ⟨rfl, -⟩
        exact .none
  | some written =>
      constructor
      · rintro ⟨h⟩
        by_cases hempty : written = ""
        · rw [if_pos hempty] at h
          cases h
        · rw [if_neg hempty] at h
          obtain rfl := Except.ok.inj h
          exact ⟨rfl, fun heq => hempty (Option.some.inj heq)⟩
      · rintro ⟨rfl, hne⟩
        exact .some (if_neg fun hempty => hne (congrArg some hempty))

theorem puzzle_eq_ok_iff {kind : PuzzleKind} : arguments.puzzle = .ok kind ↔
    PuzzleKind.ofText ((arguments.value? "puzzle").getD "ten") = .ok kind := by
  rw [puzzle]
  cases PuzzleKind.ofText ((arguments.value? "puzzle").getD "ten") <;> simp [Except.mapError]

theorem overrides_eq_ok_iff {overrides : Overrides} : arguments.overrides = .ok overrides ↔
    Spelled (arguments.value? "budget-ms") overrides.budgetMs ∧
      Spelled (arguments.value? "seed") (overrides.seed.map UInt64.toNat) ∧
      Spelled (arguments.value? "max-trials") overrides.maxTrials := by
  simp only [Arguments.overrides, bind_eq_ok_iff, number?_eq_ok_iff]
  constructor
  · rintro ⟨budgetMs, hbudget, seed, hseed, maxTrials, hcap, h⟩
    obtain rfl := Except.ok.inj h
    exact ⟨hbudget, hseed.toNat_ofNat, hcap⟩
  · rintro ⟨hbudget, hseed, hcap⟩
    refine ⟨_, hbudget, _, hseed, _, hcap, ?_⟩
    simp [pure, Except.pure, Function.comp_def]

end Arguments

theorem CommandLine.Fits.searchRequest_eq_ok_iff {grammar : Grammar} {line : CommandLine}
    (h : line.Fits grammar) {request : SearchRequest} :
    line.arguments.searchRequest = .ok request ↔ line.Asks request := by
  simp only [Arguments.searchRequest, bind_eq_ok_iff, Arguments.puzzle_eq_ok_iff,
    Arguments.formula_eq_ok_iff, Arguments.path?_eq_ok_iff, Arguments.overrides_eq_ok_iff,
    Arguments.number?_eq_ok_iff, h.value?_arguments]
  constructor
  · rintro ⟨puzzle, hpuzzle, formula, hformula, file, ⟨hfile, hnamed⟩, overrides,
      ⟨hbudget, hseed, hcap⟩, runs, hruns, hrequest⟩
    obtain rfl := Except.ok.inj hrequest
    refine ⟨hformula, hpuzzle, hfile, hnamed, hbudget, hseed, hcap, hruns, ?_⟩
    simp [CommandLine.arguments]
  · rintro ⟨hformula, hpuzzle, hfile, hnamed, hbudget, hseed, hcap, hruns, hform⟩
    refine ⟨_, hpuzzle, _, hformula, _, ⟨hfile, hnamed⟩, _, ⟨hbudget, hseed, hcap⟩, _, hruns, ?_⟩
    simp [CommandLine.arguments, pure, Except.pure, ← hform]

theorem Command.named_searchGrammar : searchGrammar.Named := by
  decide +kernel

/-- The words of a search ask for what the command lines that they are say. -/
theorem Command.ofWords_search_iff {words : List String} {request : SearchRequest} :
    ofWords ("search" :: words) = .ok (.search request) ↔
      ∃ line : CommandLine, line.words = words ∧ line.Fits searchGrammar ∧ line.Asks request := by
  have hnamed : ofWords ("search" :: words) =
      ((Arguments.read searchGrammar words) >>= fun arguments =>
        arguments.searchRequest >>= fun request => .ok (.search request)) := rfl
  simp only [hnamed, bind_eq_ok_iff, Arguments.read_eq_ok_iff named_searchGrammar]
  constructor
  · rintro ⟨_, ⟨line, rfl, hfits, rfl⟩, _, hrequest, h⟩
    cases h
    exact ⟨line, rfl, hfits, hfits.searchRequest_eq_ok_iff.1 hrequest⟩
  · rintro ⟨line, rfl, hfits, hasks⟩
    exact ⟨_, ⟨line, rfl, hfits, rfl⟩, _, hfits.searchRequest_eq_ok_iff.2 hasks, rfl⟩

end HatCircle
