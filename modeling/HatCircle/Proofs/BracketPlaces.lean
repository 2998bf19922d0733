import Mathlib.Order.Bounds.Basic
import HatCircle.Proofs.BracketParts
import HatCircle.Proofs.MatchedPairs

/-!
# The check of brackets by places

`scanBrackets?` is the check of brackets by places of the text, in rounds, with the range of each
slice as a condition. A part takes one round and has a character at least, so as many rounds as
there are characters suffice (`scanBrackets?_eq`).

The check fails at the end of the longest initial stretch that splits into parts, since no part
begins at a fault (`BracketFault.isGreatest`), and what it reports is found by counting places from
there.
-/

namespace HatCircle

/-! ### The check by places -/

/-- The check of brackets from a place of the text on, in rounds. There is no result if the rounds
do not suffice or a slice is out of range. -/
def scanBrackets? (puzzle : Puzzle) (text : List Char) :
    Nat → Nat → Option (Except Rejection Unit)
  | 0, place => if place < text.length then none else some (.ok ())
  | rounds + 1, place =>
    match text[place]? with
    | none => some (.ok ())
    | some c =>
      if puzzle.isBracketLetter c then
        if text[place + 1]? = some '[' then do
          let inner ← slice? text (place + 2) text.length
          match inner.findIdx? (· == ']') with
          | none => do
            let fragment ← slice? text place text.length
            some (.error (.malformedBracket (String.ofList fragment)))
          | some offset => do
            let close := place + 2 + offset
            let content ← slice? text (place + 2) close
            if isSingleDistance content then scanBrackets? puzzle text rounds (close + 1)
            else some (.error (.invalidBracketContent (String.ofList content)))
        else do
          let fragment ← slice? text place (min (place + 2) text.length)
          some (.error (.malformedBracket (String.ofList fragment)))
      else if c = '[' ∨ c = ']' then some (.error (.malformedBracket (String.ofList [c])))
      else scanBrackets? puzzle text rounds (place + 1)

section Places

variable {puzzle : Puzzle} {read text part : List Char} {rejection : Rejection}

theorem getElem?_behind (read text : List Char) (place : Nat) :
    (read ++ text)[read.length + place]? = text[place]? := by
  rw [List.getElem?_append_right (Nat.le_add_right ..), Nat.add_sub_cancel_left]

theorem getElem?_at (read text : List Char) : (read ++ text)[read.length]? = text[0]? :=
  getElem?_behind read text 0

theorem findIdx?_eq_none {content : List Char} (h : ']' ∉ content) :
    content.findIdx? (· == ']') = none := by
  rw [List.findIdx?_eq_none_iff]
  intro c hc
  exact beq_eq_false_iff_ne.2 (ne_of_mem_of_not_mem hc h)

theorem findIdx?_closing {content : List Char} (h : ']' ∉ content) (after : List Char) :
    (content ++ ']' :: after).findIdx? (· == ']') = some content.length := by
  simp [List.findIdx?_append, List.findIdx?_cons, findIdx?_eq_none h]

theorem slice?_behind (read content after : List Char) (letter : Char) :
    slice? (read ++ letter :: '[' :: (content ++ after)) (read.length + 2)
      (read.length + 2 + content.length) = some content := by
  simpa using slice?_append (read ++ [letter, '[']) content after

theorem slice?_to_end (read text : List Char) :
    slice? (read ++ text) read.length (read ++ text).length = some text := by
  simpa using slice?_append read text []

theorem slice?_behind_to_end (read inner : List Char) (letter : Char) :
    slice? (read ++ letter :: '[' :: inner) (read.length + 2)
      (read ++ letter :: '[' :: inner).length = some inner := by
  simpa using slice?_to_end (read ++ [letter, '[']) inner

theorem slice?_take (read text : List Char) (count : Nat) :
    slice? (read ++ text) read.length (min (read.length + count) (read ++ text).length) =
      some (text.take count) := by
  have hstop : min (read.length + count) (read ++ text).length =
      read.length + (text.take count).length := by
    rw [List.length_append, List.length_take, Nat.add_min_add_left]
  have hslice := slice?_append read (text.take count) (text.drop count)
  rwa [List.take_append_drop, ← hstop] at hslice

/-- A bracket behind a letter is read up to where it closes. -/
theorem scanBrackets?_of_closed (read : List Char) {letter : Char} {content : List Char}
    (hletter : puzzle.isBracketLetter letter = true) (hclosed : ']' ∉ content)
    (after : List Char) (rounds : Nat) :
    scanBrackets? puzzle (read ++ letter :: '[' :: (content ++ ']' :: after)) (rounds + 1)
        read.length =
      if isSingleDistance content then
        scanBrackets? puzzle (read ++ letter :: '[' :: (content ++ ']' :: after)) rounds
          (read.length + 2 + content.length + 1)
      else some (.error (.invalidBracketContent (String.ofList content))) := by
  rw [scanBrackets?]
  simp only [getElem?_at, getElem?_behind, List.getElem?_cons_zero, List.getElem?_cons_succ,
    hletter, if_true, slice?_behind_to_end, findIdx?_closing hclosed, slice?_behind,
    Option.bind_eq_bind, Option.bind_some]

/-- A part takes one round. -/
theorem Puzzle.BracketPart.scanBrackets?_eq (h : puzzle.BracketPart part) (rounds : Nat) :
    scanBrackets? puzzle (read ++ (part ++ text)) (rounds + 1) read.length =
      scanBrackets? puzzle (read ++ (part ++ text)) rounds (read ++ part).length := by
  cases h with
  | @«variable» family distance hfamily hrange =>
      have hletter := (isBracketLetter_iff ..).2 ⟨family, hfamily, rfl⟩
      have hdistance := (isDistance_iff distance).2 hrange
      have hnone := closing_notMem_distance hdistance
      have hstep := scanBrackets?_of_closed read hletter hnone text rounds
      rw [(isSingleDistance_iff _).2 ⟨distance, rfl, hdistance⟩, if_pos rfl] at hstep
      simpa using hstep
  | char hunlisted hopening hclosing =>
      have hletter := (isBracketLetter_eq_false_iff ..).2 hunlisted
      rw [scanBrackets?]
      simp [hletter, hopening, hclosing]

theorem Puzzle.BracketFault.scanBrackets?_eq (h : puzzle.BracketFault text rejection)
    (rounds : Nat) :
    scanBrackets? puzzle (read ++ text) (rounds + 1) read.length = some (.error rejection) := by
  cases h with
  | bare hletter hbare =>
      rw [List.head?_eq_getElem?] at hbare
      rw [scanBrackets?]
      simp only [getElem?_at, getElem?_behind, List.getElem?_cons_zero, List.getElem?_cons_succ,
        hletter, hbare, if_true, if_false, slice?_take, Option.bind_eq_bind, Option.bind_some]
  | unclosed hletter hunclosed =>
      rw [scanBrackets?]
      simp only [getElem?_at, getElem?_behind, List.getElem?_cons_zero, List.getElem?_cons_succ,
        hletter, if_true, slice?_behind_to_end, findIdx?_eq_none hunclosed, slice?_to_end,
        Option.bind_eq_bind, Option.bind_some]
  | content hletter hclosed hwrong =>
      rw [scanBrackets?_of_closed read hletter hclosed, hwrong, if_neg (by decide)]
  | stray hletter hbracket =>
      rw [scanBrackets?]
      simp [hletter, hbracket]

/-- As many rounds as there are characters suffice, and every slice is in range. -/
theorem scanBrackets?_eq (read : List Char) {rounds : Nat} (hrounds : text.length ≤ rounds) :
    scanBrackets? puzzle (read ++ text) rounds read.length =
      some (checkBrackets puzzle text) := by
  induction rounds generalizing read text with
  | zero =>
      obtain rfl := List.length_eq_zero_iff.1 (Nat.le_zero.1 hrounds)
      simp [scanBrackets?, checkBrackets]
  | succ rounds ih =>
      cases text with
      | nil => simp [scanBrackets?, checkBrackets]
      | cons c rest =>
          rcases exists_part_or_fault puzzle c rest with ⟨part, after, htext, hpart⟩ | ⟨_, hfault⟩
          · have hpos := List.length_pos_of_ne_nil hpart.ne_nil
            rw [htext, List.length_append] at hrounds
            rw [htext, hpart.scanBrackets?_eq, hpart.checkBrackets_append, ← List.append_assoc]
            exact ih _ (by omega)
          · rw [hfault.scanBrackets?_eq, hfault.checkBrackets_eq]

end Places

/-! ### Where the check fails -/

section Failing

variable {puzzle : Puzzle} {front back : List Char} {rejection : Rejection}

/-- The lengths of the initial stretches of a text that split into parts. -/
def Puzzle.bracketedLengths (puzzle : Puzzle) (text : List Char) : Set Nat :=
  {length | length ≤ text.length ∧ puzzle.Bracketed (text.take length)}

/-- What stands in front of the fault is the longest initial stretch that splits. -/
theorem Puzzle.BracketFault.isGreatest (h : puzzle.BracketFault back rejection)
    (hfront : puzzle.Bracketed front) :
    IsGreatest (puzzle.bracketedLengths (front ++ back)) front.length := by
  constructor
  · exact ⟨by simp, by rwa [List.take_left]⟩
  · rintro length ⟨hlength, hsplits⟩
    by_contra hlonger
    obtain ⟨more, rfl⟩ := Nat.exists_eq_add_of_le (Nat.le_of_not_le hlonger)
    rw [List.take_length_add_append, ← checkBrackets_eq_ok_iff, hfront.checkBrackets_append,
      checkBrackets_eq_ok_iff] at hsplits
    have hnil := h.eq_nil (List.take_prefix more back) hsplits
    have hnone := congrArg List.length hnil
    rw [List.length_take, List.length_nil] at hnone
    rw [List.length_append] at hlength
    omega

/-- The first bracket that closes at the place `start` or behind it stands at `stop`. -/
structure ClosesAt (text : List Char) (start stop : Nat) : Prop where
  behind : start ≤ stop
  closing : text[stop]? = some ']'
  first : ∀ place, start ≤ place → place < stop → text[place]? ≠ some ']'

theorem closesAt_content {content : List Char} (hclosed : ']' ∉ content) (read after : List Char) :
    ClosesAt (read ++ (content ++ ']' :: after)) read.length (read.length + content.length) := by
  refine ⟨Nat.le_add_right .., ?_, ?_⟩
  · rw [getElem?_behind, getElem?_at, List.getElem?_cons_zero]
  · intro place hstart hstop hclosing
    obtain ⟨offset, rfl⟩ := Nat.exists_eq_add_of_le hstart
    rw [getElem?_behind, List.getElem?_append_left (by omega)] at hclosing
    exact hclosed (List.mem_of_getElem? hclosing)

end Failing

/-- For any puzzle, whatever its bracket letters are, the check of brackets passes a text exactly if
the text splits into variables in brackets and characters that are neither bracket letters nor
brackets. It takes as many rounds as there are characters at most, and slices in range only. If it
fails, the longest initial stretch that splits ends at some `place`, and what is reported is a
stretch that begins there or, for brackets that hold anything but a distance, the text from
`place + 2` up to the next bracket that closes. -/
theorem checkBrackets_parts (puzzle : Puzzle) (text : List Char) :
    (∀ rounds, text.length ≤ rounds →
      scanBrackets? puzzle text rounds 0 = some (checkBrackets puzzle text)) ∧
    (checkBrackets puzzle text = .ok () ↔ puzzle.Bracketed text) ∧
    ∀ rejection, checkBrackets puzzle text = .error rejection →
      ∃ place, IsGreatest (puzzle.bracketedLengths text) place ∧
        ((∃ stop, place < stop ∧ stop ≤ text.length ∧
          rejection = .malformedBracket (String.ofList (slice text place stop))) ∨
        ∃ stop, ClosesAt text (place + 2) stop ∧
          rejection = .invalidBracketContent (String.ofList (slice text (place + 2) stop))) := by
  refine ⟨?_, checkBrackets_eq_ok_iff puzzle text, ?_⟩
  · intro rounds hrounds
    exact scanBrackets?_eq [] hrounds
  · intro rejection h
    obtain ⟨front, back, rfl, hfront, hfault⟩ := (checkBrackets_eq_error_iff ..).1 h
    refine ⟨front.length, hfault.isGreatest hfront, ?_⟩
    rcases hfault.quotes with ⟨fragment, hne, ⟨rest, rfl⟩, rfl⟩ |
      ⟨letter, content, after, -, rfl, hclosed, -, rfl⟩
    · have hpos := List.length_pos_of_ne_nil hne
      refine .inl ⟨front.length + fragment.length, by omega, ?_, ?_⟩
      · simp only [List.length_append]
        omega
      · rw [slice_append]
    · have hcloses := closesAt_content hclosed (front ++ [letter, '[']) after
      have hslice : slice (front ++ letter :: '[' :: (content ++ ']' :: after)) (front.length + 2)
          (front.length + 2 + content.length) = content := by
        simpa using slice_append (front ++ [letter, '[']) content (']' :: after)
      exact .inr ⟨front.length + 2 + content.length, by simpa using hcloses, by rw [hslice]⟩

/-- A variable in brackets, some characters, and then brackets around two digits: what stands
between these brackets is reported. -/
theorem checkBrackets_parts_ten :
    "l[3]-#×r[12]+1".toList.length ≤ 14 ∧
    scanBrackets? .ten "l[3]-#×r[12]+1".toList 14 0 =
      some (.error (.invalidBracketContent "12")) ∧
    checkBrackets .ten "l[3]-#×r[12]+1".toList = .error (.invalidBracketContent "12") ∧
    ∃ place, IsGreatest (Puzzle.ten.bracketedLengths "l[3]-#×r[12]+1".toList) place ∧
      ∃ stop, ClosesAt "l[3]-#×r[12]+1".toList (place + 2) stop ∧
        slice "l[3]-#×r[12]+1".toList (place + 2) stop = "12".toList := by
  have hreport : checkBrackets .ten "l[3]-#×r[12]+1".toList =
      .error (.invalidBracketContent "12") := by decide +kernel
  have hlength : "l[3]-#×r[12]+1".toList.length ≤ 14 := by decide +kernel
  obtain ⟨hscan, -, hfails⟩ := checkBrackets_parts .ten "l[3]-#×r[12]+1".toList
  refine ⟨hlength, (hscan 14 hlength).trans (congrArg some hreport), hreport, ?_⟩
  obtain ⟨place, hgreatest, ⟨stop, -, -, hother⟩ | ⟨stop, hcloses, hquoted⟩⟩ := hfails _ hreport
  · cases hother
  · have hcontent := congrArg String.toList (Rejection.invalidBracketContent.inj hquoted)
    exact ⟨place, hgreatest, stop, hcloses, (hcontent.trans String.toList_ofList).symm⟩

end HatCircle
