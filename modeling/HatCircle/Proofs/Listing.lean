import HatCircle.Assignment.Text
import HatCircle.Proofs.Canonical
import HatCircle.Proofs.Numerals

/-!
# Listings of hats

A listing is a text between whose commas stand numerals, with blanks around them, and parts
that are blank throughout. `Listed` says which hats some parts list, and `FirstFault` which
part is the first that is neither blank nor the numeral of a hat. The parts of a text are of
exactly one of the two kinds (`listed_or_firstFault`). Those that list hats are read as these
hats, whether they fit the puzzle or not, and the others are refused for the first fault
(`ofText_of_listed`, `ofText_of_firstFault`).
-/

namespace HatCircle

namespace Text

/-! ### Parts between separators -/

theorem splitAt_eq_splitOn (separator : Char) (text : List Char) :
    Text.splitAt separator text = text.splitOn separator := by
  induction text with
  | nil => rfl
  | cons c rest ih =>
      rw [Text.splitAt, ih, List.splitOn, List.splitOn, List.splitOnP_cons_eq_if_modifyHead]
      by_cases hc : c = separator
      · rw [if_pos hc, if_pos (beq_iff_eq.2 hc)]
      · rw [if_neg hc, if_neg (mt beq_iff_eq.1 hc)]
        cases hparts : rest.splitOnP (· == separator) with
        | nil => exact absurd hparts (List.splitOnP_ne_nil _ _)
        | cons part parts => rfl

/-- The parts of a text are those that it is put together from with separators between them. -/
theorem splitAt_intercalate {separator : Char} {parts : List (List Char)} (hne : parts ≠ [])
    (h : ∀ part ∈ parts, separator ∉ part) :
    Text.splitAt separator ([separator].intercalate parts) = parts := by
  rw [splitAt_eq_splitOn, List.splitOn_intercalate separator h hne]

theorem intercalate_splitAt (separator : Char) (text : List Char) :
    [separator].intercalate (Text.splitAt separator text) = text := by
  rw [splitAt_eq_splitOn, List.intercalate_splitOn]

theorem notMem_of_mem_splitAt {separator : Char} {text part : List Char}
    (h : part ∈ Text.splitAt separator text) : separator ∉ part := by
  induction text generalizing part with
  | nil =>
      obtain rfl := List.mem_singleton.1 h
      exact List.not_mem_nil
  | cons c rest ih =>
      rw [Text.splitAt] at h
      split at h
      · rcases List.mem_cons.1 h with rfl | h
        · exact List.not_mem_nil
        · exact ih h
      · rename_i hc
        cases hparts : Text.splitAt separator rest with
        | nil =>
            rw [hparts] at h
            obtain rfl := List.mem_singleton.1 h
            simpa using Ne.symm hc
        | cons first parts =>
            rw [hparts] at h ih
            rcases List.mem_cons.1 h with rfl | h
            · exact List.not_mem_cons_of_ne_of_not_mem (Ne.symm hc) (ih (List.mem_cons_self ..))
            · exact ih (List.mem_cons_of_mem _ h)

/-! ### Blanks around a part -/

/-- The text is blank throughout. -/
def Blank (text : List Char) : Prop :=
  ∀ c ∈ text, isBlank c = true

/-- The text holds something and has no blanks at its ends. -/
structure Trimmed (text : List Char) : Prop where
  ne_nil : text ≠ []
  head : ∀ c ∈ text.head?, isBlank c = false
  last : ∀ c ∈ text.getLast?, isBlank c = false

theorem trimStart_append {front text : List Char} (hfront : Blank front)
    (htext : ∀ c ∈ text.head?, isBlank c = false) : trimStart (front ++ text) = text := by
  rw [trimStart, List.dropWhile_append_of_pos hfront]
  cases text with
  | nil => rfl
  | cons c rest => rw [List.dropWhile_cons_of_neg (by simp [htext c rfl])]

theorem trim_of_blank {text : List Char} (h : Blank text) : trim text = [] := by
  have hstart : trimStart text = [] := List.dropWhile_eq_nil_iff.2 h
  rw [trim, hstart]
  rfl

theorem trim_append {front core back : List Char} (hfront : Blank front) (hcore : Trimmed core)
    (hback : Blank back) : trim (front ++ (core ++ back)) = core := by
  have hhead : ∀ c ∈ (core ++ back).head?, isBlank c = false := by
    rw [List.head?_append_of_ne_nil _ hcore.ne_nil]
    exact hcore.head
  have hlast : ∀ c ∈ core.reverse.head?, isBlank c = false := by
    rw [List.head?_reverse]
    exact hcore.last
  have hback' : Blank back.reverse := fun c hc => hback c (List.mem_reverse.1 hc)
  rw [trim, trimStart_append hfront hhead, List.reverse_append, trimStart_append hback' hlast,
    List.reverse_reverse]

/-- A text is blank, or it has a core between blanks. -/
theorem blank_or_exists_core (text : List Char) : Blank text ∨
    ∃ front core back, text = front ++ (core ++ back) ∧ Blank front ∧ Trimmed core ∧
      Blank back := by
  induction text with
  | nil => exact .inl fun c hc => absurd hc List.not_mem_nil
  | cons c rest ih =>
      by_cases hc : isBlank c = true
      · rcases ih with hblank | ⟨front, core, back, rfl, hfront, hcore, hback⟩
        · exact .inl (List.forall_mem_cons.2 ⟨hc, hblank⟩)
        · exact .inr ⟨c :: front, core, back, rfl, List.forall_mem_cons.2 ⟨hc, hfront⟩, hcore,
            hback⟩
      · right
        have hc' : isBlank c = false := Bool.not_eq_true _ ▸ hc
        rcases ih with hblank | ⟨front, core, back, rfl, -, hcore, hback⟩
        · exact ⟨[], [c], rest, rfl, fun d hd => absurd hd List.not_mem_nil,
            ⟨List.cons_ne_nil c [], by simpa using hc', by simpa using hc'⟩, hblank⟩
        · refine ⟨[], c :: (front ++ core), back, by simp, fun d hd => absurd hd List.not_mem_nil,
            ⟨List.cons_ne_nil _ _, by simpa using hc', ?_⟩, hback⟩
          rw [← List.cons_append, List.getLast?_append_of_ne_nil _ hcore.ne_nil]
          exact hcore.last

end Text

namespace Assignment

open Text (Blank Trimmed)

/-! ### What the parts list -/

/-- The parts list these hats: each part is blank or has the numeral of one hat, with blanks
around it. -/
inductive Listed : List (List Char) → List Hat → Prop where
  | nil : Listed [] []
  | blank {part : List Char} {parts : List (List Char)} {hats : List Hat}
      (empty : Blank part) (rest : Listed parts hats) : Listed (part :: parts) hats
  | numeral {front spelling back : List Char} {parts : List (List Char)} {hat : Hat}
      {hats : List Hat} (before : Blank front) (spelled : Numeral.Spells spelling hat.toNat)
      (behind : Blank back) (rest : Listed parts hats) :
      Listed ((front ++ (spelling ++ back)) :: parts) (hat :: hats)

/-- The first part that is neither blank nor the numeral of a hat holds this text between
blanks. -/
inductive FirstFault : List (List Char) → List Char → Prop where
  | here {front core back : List Char} {parts : List (List Char)} (before : Blank front)
      (trimmed : Trimmed core) (behind : Blank back)
      (unspelled : ∀ hat : Hat, ¬Numeral.Spells core hat.toNat) :
      FirstFault ((front ++ (core ++ back)) :: parts) core
  | blank {part core : List Char} {parts : List (List Char)} (empty : Blank part)
      (rest : FirstFault parts core) : FirstFault (part :: parts) core
  | numeral {front spelling back core : List Char} {parts : List (List Char)} {hat : Hat}
      (before : Blank front) (spelled : Numeral.Spells spelling hat.toNat) (behind : Blank back)
      (rest : FirstFault parts core) : FirstFault ((front ++ (spelling ++ back)) :: parts) core

theorem isBlank_of_mem_spelling {spelling : List Char} {n : Nat}
    (h : Numeral.Spells spelling n) {c : Char} (hc : c ∈ spelling) : isBlank c = false := by
  rcases h.mem hc with hdigit | rfl
  · exact isBlank_of_isDigit hdigit
  · decide

theorem trimmed_of_spells {spelling : List Char} {n : Nat} (h : Numeral.Spells spelling n) :
    Trimmed spelling :=
  ⟨h.ne_nil, fun _ hc => isBlank_of_mem_spelling h (List.mem_of_mem_head? hc),
    fun _ hc => isBlank_of_mem_spelling h (List.mem_of_mem_getLast? hc)⟩

/-- Parts list hats up to the end, or up to a first fault. -/
theorem listed_or_firstFault (parts : List (List Char)) :
    (∃ hats, Listed parts hats) ∨ ∃ core, FirstFault parts core := by
  induction parts with
  | nil => exact .inl ⟨[], .nil⟩
  | cons part parts ih =>
      rcases Text.blank_or_exists_core part with hblank |
        ⟨front, core, back, rfl, hfront, hcore, hback⟩
      · rcases ih with ⟨hats, hlisted⟩ | ⟨fault, hfault⟩
        · exact .inl ⟨hats, .blank hblank hlisted⟩
        · exact .inr ⟨fault, .blank hblank hfault⟩
      · by_cases hspelled : ∃ hat : Hat, Numeral.Spells core hat.toNat
        · obtain ⟨hat, hspelled⟩ := hspelled
          rcases ih with ⟨hats, hlisted⟩ | ⟨fault, hfault⟩
          · exact .inl ⟨hat :: hats, .numeral hfront hspelled hback hlisted⟩
          · exact .inr ⟨fault, .numeral hfront hspelled hback hfault⟩
        · exact .inr ⟨core, .here hfront hcore hback (not_exists.1 hspelled)⟩

/-- Between the commas of a listing there are no more commas. -/
theorem Listed.comma_notMem {parts : List (List Char)} {hats : List Hat} (h : Listed parts hats) :
    ∀ part ∈ parts, ',' ∉ part := by
  have hblank : ∀ {text : List Char}, Blank text → ',' ∉ text := fun htext hmem =>
    absurd (htext ',' hmem) (by decide)
  induction h with
  | nil => exact fun part hpart => absurd hpart List.not_mem_nil
  | blank hempty _ ih => exact List.forall_mem_cons.2 ⟨hblank hempty, ih⟩
  | numeral hbefore hspelled hbehind _ ih =>
      refine List.forall_mem_cons.2 ⟨fun hmem => ?_, ih⟩
      rcases List.mem_append.1 hmem with hmem | hmem
      · exact hblank hbefore hmem
      · rcases List.mem_append.1 hmem with hmem | hmem
        · rcases hspelled.mem hmem with hdigit | hsign
          · exact absurd hdigit (by decide)
          · exact absurd hsign (by decide)
        · exact hblank hbehind hmem

/-! ### The reader -/

/-- What is left of some parts without the blanks. -/
def cores (parts : List (List Char)) : List (List Char) :=
  (parts.map Text.trim).filter fun part => !part.isEmpty

theorem numerals_eq (text : String) : numerals text = cores (Text.splitAt ',' text.toList) := rfl

theorem cores_of_blank {part : List Char} (h : Blank part) (parts : List (List Char)) :
    cores (part :: parts) = cores parts := by
  rw [cores, List.map_cons, Text.trim_of_blank h]
  rfl

theorem cores_of_trimmed {front core back : List Char} (hfront : Blank front)
    (hcore : Trimmed core) (hback : Blank back) (parts : List (List Char)) :
    cores ((front ++ (core ++ back)) :: parts) = core :: cores parts := by
  have hkept : (!core.isEmpty) = true := by simpa using hcore.ne_nil
  rw [cores, List.map_cons, Text.trim_append hfront hcore hback]
  exact List.filter_cons_of_pos hkept

theorem readHat_eq_ok_iff {part : List Char} {hat : Hat} :
    readHat part = .ok hat ↔ Numeral.Spells part hat.toNat := by
  unfold readHat
  cases hread : Numeral.read 256 part with
  | ok n =>
      obtain ⟨hspelled, hlt⟩ := (Numeral.read_eq_ok_iff (by decide)).1 hread
      have hn : (UInt8.ofNat n).toNat = n := UInt8.toNat_ofNat_of_lt' hlt
      constructor
      · intro h
        obtain rfl := Except.ok.inj h
        rwa [hn]
      · intro h
        have hhat := (Numeral.read_eq_ok_iff (by decide)).2 ⟨h, hat.toNat_lt⟩
        rw [hread] at hhat
        obtain rfl := Except.ok.inj hhat
        exact congrArg Except.ok UInt8.ofNat_toNat
  | error fault =>
      constructor
      · intro h
        cases h
      · intro h
        have hhat := (Numeral.read_eq_ok_iff (by decide)).2 ⟨h, hat.toNat_lt⟩
        rw [hread] at hhat
        cases hhat

theorem exists_readHat_eq_error {part : List Char}
    (h : ∀ hat : Hat, ¬Numeral.Spells part hat.toNat) :
    ∃ fault, readHat part = .error (.numeral (String.ofList part) fault) := by
  cases hread : Numeral.read 256 part with
  | ok n =>
      have hok : readHat part = .ok (UInt8.ofNat n) := by rw [readHat, hread]
      exact absurd (readHat_eq_ok_iff.1 hok) (h _)
  | error fault => exact ⟨fault, by rw [readHat, hread]⟩

theorem mapM_readHat_of_listed {parts : List (List Char)} {hats : List Hat}
    (h : Listed parts hats) : (cores parts).mapM readHat = .ok hats := by
  induction h with
  | nil => rfl
  | blank hempty _ ih => rw [cores_of_blank hempty, ih]
  | numeral hbefore hspelled hbehind _ ih =>
      rw [cores_of_trimmed hbefore (trimmed_of_spells hspelled) hbehind, List.mapM_cons,
        readHat_eq_ok_iff.2 hspelled, ih]
      rfl

theorem mapM_readHat_of_firstFault {parts : List (List Char)} {core : List Char}
    (h : FirstFault parts core) :
    ∃ fault, (cores parts).mapM readHat = .error (.numeral (String.ofList core) fault) := by
  induction h with
  | here hbefore htrimmed hbehind hunspelled =>
      obtain ⟨fault, hfault⟩ := exists_readHat_eq_error hunspelled
      refine ⟨fault, ?_⟩
      rw [cores_of_trimmed hbefore htrimmed hbehind, List.mapM_cons, hfault]
      rfl
  | blank hempty _ ih => rwa [cores_of_blank hempty]
  | numeral hbefore hspelled hbehind _ ih =>
      obtain ⟨fault, hfault⟩ := ih
      refine ⟨fault, ?_⟩
      rw [cores_of_trimmed hbefore (trimmed_of_spells hspelled) hbehind, List.mapM_cons,
        readHat_eq_ok_iff.2 hspelled, hfault]
      rfl

section Texts

variable {text : String} {parts : List (List Char)}

/-- Listed hats are taken as they are. -/
theorem ofText_of_listed (puzzle : Puzzle) {hats : List Hat}
    (htext : text.toList = [','].intercalate parts) (h : Listed parts hats) :
    ofText puzzle text = ofHats puzzle hats := by
  have hcores : cores (Text.splitAt ',' text.toList) = cores parts := by
    cases h with
    | nil => rw [htext]; rfl
    | blank hempty hrest =>
        rw [htext, Text.splitAt_intercalate (List.cons_ne_nil _ _)
          (Listed.blank hempty hrest).comma_notMem]
    | numeral hbefore hspelled hbehind hrest =>
        rw [htext, Text.splitAt_intercalate (List.cons_ne_nil _ _)
          (Listed.numeral hbefore hspelled hbehind hrest).comma_notMem]
  rw [ofText, numerals_eq, hcores, mapM_readHat_of_listed h]
  rfl

theorem ofText_of_firstFault (puzzle : Puzzle) {core : List Char}
    (h : FirstFault (Text.splitAt ',' text.toList) core) :
    ∃ fault, ofText puzzle text = .error (.numeral (String.ofList core) fault) := by
  obtain ⟨fault, hfault⟩ := mapM_readHat_of_firstFault h
  refine ⟨fault, ?_⟩
  rw [ofText, numerals_eq, hfault]
  rfl

end Texts

/-! ### What is shown -/

/-- A blank behind each separator is a blank in front of each part but the first. -/
theorem intercalate_blank (separator blank : Char) (first : List Char)
    (rest : List (List Char)) : [separator, blank].intercalate (first :: rest) =
      [separator].intercalate (first :: rest.map (blank :: ·)) := by
  induction rest generalizing first with
  | nil => simp
  | cons next rest ih =>
      have hblank : [separator].intercalate ((blank :: next) :: rest.map (blank :: ·)) =
          blank :: [separator].intercalate (next :: rest.map (blank :: ·)) := by
        cases rest with
        | nil => simp
        | cons => simp [List.intercalate_cons_cons]
      rw [List.intercalate_cons_cons, ih, List.map_cons, List.intercalate_cons_cons, hblank]
      simp

theorem listed_digits {front : List Char} (hfront : Blank front) (hats : List Hat) :
    Listed (hats.map fun hat => front ++ Numeral.digits hat.toNat) hats := by
  induction hats with
  | nil => exact .nil
  | cons hat hats ih =>
      have hspelled := Numeral.spells_render hat.toNat
      rw [Numeral.toList_render] at hspelled
      simpa using Listed.numeral hfront hspelled (List.forall_mem_nil _) ih

/-- What is shown of an assignment lists its hats. -/
theorem listed_listing (assignment : Assignment) : ∃ parts,
    assignment.listing.toList = [','].intercalate parts ∧ Listed parts assignment.hats := by
  obtain ⟨hats⟩ := assignment
  have htext : (listing ⟨hats⟩).toList =
      [',', ' '].intercalate (hats.map fun hat => Numeral.digits hat.toNat) := by
    simp [listing, String.toList_intercalate, Numeral.toList_render, Function.comp_def]
  cases hats with
  | nil => exact ⟨[], htext, .nil⟩
  | cons hat hats =>
      have hspelled := Numeral.spells_render hat.toNat
      rw [Numeral.toList_render] at hspelled
      have hblank : Blank [' '] := List.all_eq_true.1 rfl
      have hrest := listed_digits hblank hats
      refine ⟨Numeral.digits hat.toNat :: hats.map fun hat => ' ' :: Numeral.digits hat.toNat,
        ?_, ?_⟩
      · rw [htext, List.map_cons, intercalate_blank, List.map_map]
        rfl
      · simpa using Listed.numeral (List.forall_mem_nil _) hspelled (List.forall_mem_nil _) hrest

/-! ### Faults of colours -/

/-- An assignment is refused for its colours when it has the right length, and for the first
person whose hat is not one of the puzzle. -/
theorem ofHats_eq_range_iff {puzzle : Puzzle} {hats : List Hat} {person : Nat} {hat base : Hat} :
    ofHats puzzle hats = .error (.range person hat base) ↔
      hats.length = puzzle.personCount ∧ base = puzzle.base ∧ hats[person]? = some hat ∧
        puzzle.base ≤ hat ∧
        ∀ earlier < person, ∀ other, hats[earlier]? = some other → other < puzzle.base := by
  have hfind : (hats.zipIdx.find? fun entry => puzzle.base ≤ entry.1) = some (hat, person) ↔
      hats[person]? = some hat ∧ puzzle.base ≤ hat ∧
        ∀ earlier < person, ∀ other, hats[earlier]? = some other → other < puzzle.base := by
    rw [List.find?_eq_some_iff_getElem]
    constructor
    · rintro ⟨hoff, place, hplace, hentry, hbefore⟩
      rw [List.getElem_zipIdx, Prod.mk.injEq, Nat.zero_add] at hentry
      obtain ⟨hhat, rfl⟩ := hentry
      refine ⟨List.getElem?_eq_some_iff.2 ⟨_, hhat⟩, by simpa using hoff, ?_⟩
      intro earlier hlt other hother
      obtain ⟨hearlier, rfl⟩ := List.getElem?_eq_some_iff.1 hother
      simpa using hbefore earlier hlt
    · rintro ⟨hhat, hoff, hbefore⟩
      obtain ⟨hperson, rfl⟩ := List.getElem?_eq_some_iff.1 hhat
      refine ⟨by simpa using hoff, person, by simpa using hperson, by simp, ?_⟩
      intro earlier hlt
      have hearlier : earlier < hats.length := Nat.lt_trans hlt hperson
      simpa using hbefore earlier hlt _ (List.getElem?_eq_getElem hearlier)
  unfold ofHats
  by_cases hlength : hats.length = puzzle.personCount
  · rw [if_neg (not_not.2 hlength)]
    cases hfound : hats.zipIdx.find? fun entry => puzzle.base ≤ entry.1 with
    | none =>
        constructor
        · intro h
          cases h
        · rintro ⟨-, rfl, hfirst⟩
          rw [hfind.2 hfirst] at hfound
          cases hfound
    | some entry =>
        obtain ⟨hat', person'⟩ := entry
        constructor
        · intro h
          obtain ⟨rfl, rfl, rfl⟩ := AssignmentError.range.inj (Except.error.inj h)
          exact ⟨hlength, rfl, hfind.1 hfound⟩
        · rintro ⟨-, rfl, hfirst⟩
          rw [hfind.2 hfirst] at hfound
          obtain ⟨rfl, rfl⟩ := Prod.mk.inj (Option.some.inj hfound)
          rfl
  · rw [if_pos hlength]
    constructor
    · intro h
      cases h
    · rintro ⟨hsame, -⟩
      exact absurd hsame hlength

theorem exists_range_of_code {error : AssignmentError} (h : error.info.code = "assignment-range") :
    ∃ person hat base, error = .range person hat base := by
  cases error with
  | length expected found =>
      change "assignment-length" = "assignment-range" at h
      exact absurd h (by decide)
  | numeral value fault =>
      change "assignment-parse" = "assignment-range" at h
      exact absurd h (by decide)
  | range person hat base => exact ⟨person, hat, base, rfl⟩

/-- The report of a hat that is not one of the puzzle names the person, the hat and the number of
colours. -/
theorem entries_range (person : Nat) (hat base : Hat) :
    (AssignmentError.range person hat base).info.context.entries =
      [("base", Numeral.render base.toNat), ("hat", Numeral.render hat.toNat),
        ("person", Numeral.render person)] := by
  have hhat : ("hat" : String) < "person" := by decide +kernel
  have hbase : ("base" : String) < "hat" := by decide +kernel
  change Context.insertEntry "base" _ (Context.insertEntry "hat" _
    (Context.insertEntry "person" _ [])) = _
  rw [Context.insertEntry, Context.insertEntry, if_pos hhat, Context.insertEntry, if_pos hbase]

/-- A listing is read as its hats, with whatever the puzzle makes of them, and what is shown of
an assignment of the puzzle is read back. Every other text is refused for its first fault,
whatever comes after that and whatever the puzzle is. If the hats are refused for their
colours, it is for the first person whose hat is not a colour of the puzzle. -/
theorem listing_exact (puzzle : Puzzle) :
    (∀ (text : String) parts hats, text.toList = [','].intercalate parts → Listed parts hats →
      ofText puzzle text = ofHats puzzle hats) ∧
    (∀ assignment inner, ofHats puzzle assignment.hats = .ok assignment →
      assignment.render = "[" ++ inner ++ "]" → ofText puzzle inner = .ok assignment) ∧
    (∀ text : String, (∀ parts hats, text.toList = [','].intercalate parts → ¬Listed parts hats) →
      ∃ parts core, text.toList = [','].intercalate parts ∧ (∀ part ∈ parts, ',' ∉ part) ∧
        FirstFault parts core ∧
        ∃ error, ofText puzzle text = .error error ∧ error.info.code = "assignment-parse" ∧
          error.info.context.entries = [("value", String.ofList core)]) ∧
    ∀ text error, ofText puzzle text = .error error → error.info.code = "assignment-range" →
      ∃ parts hats person hat, text.toList = [','].intercalate parts ∧ Listed parts hats ∧
        hats[person]? = some hat ∧ puzzle.base ≤ hat ∧
        (∀ earlier < person, ∀ other, hats[earlier]? = some other → other < puzzle.base) ∧
        error.info.context.entries = [("base", Numeral.render puzzle.base.toNat),
          ("hat", Numeral.render hat.toNat), ("person", Numeral.render person)] := by
  refine ⟨?_, ?_, ?_, ?_⟩
  · intro text parts hats htext h
    exact ofText_of_listed puzzle htext h
  · intro assignment inner hvalid hrender
    obtain rfl : assignment.listing = inner :=
      (String.append_right_inj _).1 ((String.append_left_inj _).1 hrender)
    obtain ⟨parts, htext, hlisted⟩ := listed_listing assignment
    rw [ofText_of_listed puzzle htext hlisted, hvalid]
  · intro text hother
    have htext := (Text.intercalate_splitAt ',' text.toList).symm
    rcases listed_or_firstFault (Text.splitAt ',' text.toList) with ⟨hats, hlisted⟩ | ⟨core, hfault⟩
    · exact absurd hlisted (hother _ hats htext)
    · obtain ⟨fault, herror⟩ := ofText_of_firstFault puzzle hfault
      exact ⟨_, core, htext, fun part => Text.notMem_of_mem_splitAt, hfault, _, herror, rfl, rfl⟩
  · intro text error herror hcode
    obtain ⟨person, hat, base, rfl⟩ := exists_range_of_code hcode
    have htext := (Text.intercalate_splitAt ',' text.toList).symm
    rcases listed_or_firstFault (Text.splitAt ',' text.toList) with ⟨hats, hlisted⟩ | ⟨core, hfault⟩
    · rw [ofText_of_listed puzzle htext hlisted] at herror
      obtain ⟨-, rfl, hhat, hoff, hfirst⟩ := ofHats_eq_range_iff.1 herror
      exact ⟨_, hats, person, hat, htext, hlisted, hhat, hoff, hfirst, entries_range ..⟩
    · obtain ⟨fault, hparse⟩ := ofText_of_firstFault puzzle hfault
      rw [hparse] at herror
      cases herror

/-- Two people: a listing with a plus sign, leading zeros and a blank part; the listing that is
shown; a numeral that no byte holds, in front of a part that is no numeral at all; and a second
person whose hat is not a colour of the puzzle. -/
theorem listing_exact_two :
    ofText .two " +0,  ,001 " = ofHats .two [0, 1] ∧
      ofText .two "0, 1" = .ok ⟨[0, 1]⟩ ∧
      (∃ parts core, "0, 256 ,x".toList = [','].intercalate parts ∧
        (∀ part ∈ parts, ',' ∉ part) ∧ FirstFault parts core ∧
        ∃ error, ofText .two "0, 256 ,x" = .error error ∧ error.info.code = "assignment-parse" ∧
          error.info.context.entries = [("value", String.ofList core)]) ∧
      ∃ (parts : List (List Char)) (hats : List Hat) (person : Nat) (hat : Hat),
        "0,2".toList = [','].intercalate parts ∧ Listed parts hats ∧
        hats[person]? = some hat ∧ Puzzle.two.base ≤ hat ∧
        ∀ earlier < person, ∀ other, hats[earlier]? = some other → other < Puzzle.two.base := by
  obtain ⟨hlisted, hshown, hfault, hrange⟩ := listing_exact .two
  refine ⟨?_, hshown ⟨[0, 1]⟩ "0, 1" rfl (by decide +kernel), hfault _ ?_, ?_⟩
  · have hone : Numeral.Spells ['0', '0', '1'] (1 : Hat).toNat :=
      .plain (by simp) (List.all_eq_true.1 rfl)
    have hzero : Numeral.Spells ['+', '0'] (0 : Hat).toNat :=
      .signed (by simp) (List.all_eq_true.1 rfl)
    have hblank : Blank [' '] := List.all_eq_true.1 rfl
    have hblanks : Blank [' ', ' '] := List.all_eq_true.1 rfl
    refine hlisted _ [[' ', '+', '0'], [' ', ' '], ['0', '0', '1', ' ']] [0, 1] (by simp) ?_
    exact @Listed.numeral _ _ [] _ _ _ hblank hzero (List.forall_mem_nil _)
      (.blank hblanks (@Listed.numeral [] _ _ _ _ _ (List.forall_mem_nil _) hone hblank .nil))
  · intro parts hats htext h
    have herror : ofText .two "0, 256 ,x" = .error (.numeral "256" .tooLarge) := by
      decide +kernel
    rw [hlisted _ parts hats htext h] at herror
    unfold ofHats at herror
    split at herror
    · cases herror
    · split at herror <;> cases herror
  · have herror : ofText .two "0,2" = .error (.range 1 2 2) := by decide +kernel
    obtain ⟨parts, hats, person, hat, htext, h, hhat, hoff, hfirst, -⟩ := hrange _ _ herror rfl
    exact ⟨parts, hats, person, hat, htext, h, hhat, hoff, hfirst⟩

end Assignment

end HatCircle
