import HatCircle.Proofs.Recognition

/-!
# The descent of the parser ends

The readers of the parser call one another: a formula calls for terms, a term for factors, and
a factor for the formula in its parentheses. `Reader.run` makes these calls with a limit on how
many may be open at a time, each further item of a chain counting as a call of its own, and
gives nothing beyond the limit. Lexemes are used up between a factor and the next one
(`Reader.length_of_read`), so three calls for each lexeme are enough, and the limited parser
returns what the parser returns, be it a tree or an error (`Reader.run_eq`, `parseWithin_eq`).
-/

namespace HatCircle

/-- The readers of the parser. Two of them go on with a chain whose tree so far is `lhs`. -/
inductive Reader where
  | expr
  | terms (lhs : Expr)
  | term
  | factors (lhs : Expr)
  | factor

/-- The operator with which the lexemes begin, if it is one of those asked for, and what
follows it. -/
def Lexeme.operator? (joins : Operator → Bool) : List Lexeme → Option (Operator × List Lexeme)
  | .token (.operator op) :: rest => if joins op then some (op, rest) else none
  | _ => none

namespace Reader

/-- What a reader returns as long as no more than `depth` calls have to be open at a time. -/
def run (puzzle : Puzzle) :
    Nat → Reader → List Lexeme → ExceptT ParseError Option (Expr × List Lexeme)
  | 0, _, _ => none
  | depth + 1, .expr, lexemes => do
    let first ← run puzzle depth .term lexemes
    run puzzle depth (.terms first.1) first.2
  | depth + 1, .terms lhs, lexemes =>
    match Lexeme.operator? Operator.isAdditive lexemes with
    | some (op, rest) => do
      let rhs ← run puzzle depth .term rest
      run puzzle depth (.terms (.binary op lhs rhs.1)) rhs.2
    | none => return (lhs, lexemes)
  | depth + 1, .term, lexemes => do
    let first ← run puzzle depth .factor lexemes
    run puzzle depth (.factors first.1) first.2
  | depth + 1, .factors lhs, lexemes =>
    match Lexeme.operator? (· == .mul) lexemes with
    | some (op, rest) => do
      let rhs ← run puzzle depth .factor rest
      run puzzle depth (.factors (.binary op lhs rhs.1)) rhs.2
    | none => return (lhs, lexemes)
  | _ + 1, .factor, [] => throw .unexpectedEnd
  | _ + 1, .factor, .token token :: rest => do
    let tree ← token.operand puzzle
    return (tree, rest)
  | depth + 1, .factor, .opening :: rest => do
    let inner ← run puzzle depth .expr rest
    match inner.2 with
    | .closing :: after => return (inner.1, after)
    | other :: _ => throw (.unexpected other.text)
    | [] => throw .unclosed
  | _ + 1, .factor, .closing :: _ => throw (.unexpected Lexeme.closing.text)

/-- What a reader returns without a limit. -/
def read (puzzle : Puzzle) :
    Reader → List Lexeme → Except ParseError (Expr × List Lexeme)
  | .expr => readExpr puzzle
  | .terms lhs => readTerms puzzle lhs
  | .term => readTerm puzzle
  | .factors lhs => readFactors puzzle lhs
  | .factor => readFactor puzzle

/-- How many calls a reader makes before lexemes are used up. -/
def rank : Reader → Nat
  | .expr => 2
  | .term => 1
  | _ => 0

/-- How many lexemes a reader uses up at least. -/
def least : Reader → Nat
  | .terms _ => 0
  | .factors _ => 0
  | _ => 1

variable {puzzle : Puzzle}

/-- A reader keeps count of what it has used up while it makes its result, and what `forget`
leaves of the result is no longer than that. -/
theorem length_of_map {α : Type} {parsed : Except ParseError α} {forget : α → Expr × List Lexeme}
    {used length : Nat} (hused : ∀ a, (forget a).2.length + used ≤ length) {tree : Expr}
    {rest : List Lexeme} (h : parsed.map forget = .ok (tree, rest)) :
    rest.length + used ≤ length := by
  cases parsed with
  | error error => cases h
  | ok a =>
      have hforget : forget a = (tree, rest) := Except.ok.inj h
      have hrest := hused a
      rwa [hforget] at hrest

theorem length_of_read {reader : Reader} {lexemes rest : List Lexeme} {tree : Expr}
    (h : reader.read puzzle lexemes = .ok (tree, rest)) :
    rest.length + reader.least ≤ lexemes.length := by
  cases reader with
  | expr => exact length_of_map Parsed.shorter h
  | terms lhs => exact length_of_map (fun read => read.2.2) h
  | term => exact length_of_map Parsed.shorter h
  | factors lhs => exact length_of_map (fun read => read.2.2) h
  | factor => exact length_of_map Parsed.shorter h

theorem operator?_cases (joins : Operator → Bool) (lexemes : List Lexeme) :
    (Lexeme.operator? joins lexemes = none ∧ ∀ op, joins op = true →
      lexemes.head? ≠ some (.token (.operator op))) ∨
    ∃ op rest, lexemes = .token (.operator op) :: rest ∧ joins op = true ∧
      Lexeme.operator? joins lexemes = some (op, rest) := by
  unfold Lexeme.operator?
  split
  · rename_i op rest
    by_cases hop : joins op = true
    · exact .inr ⟨op, rest, rfl, hop, if_pos hop⟩
    · refine .inl ⟨if_neg hop, ?_⟩
      rintro other hother h
      cases h
      exact hop hother
  · rename_i hnot
    refine .inl ⟨rfl, ?_⟩
    intro op _ h
    obtain ⟨rest, rfl⟩ := List.head?_eq_some_iff.1 h
    exact hnot op rest rfl

section Calls

variable {depth : Nat}
  (ih : ∀ (reader : Reader) (lexemes : List Lexeme), 3 * lexemes.length + reader.rank < depth →
    reader.run puzzle depth lexemes = some (reader.read puzzle lexemes))
include ih

/-- A reader reads something, and the rest of a chain is read behind it. -/
theorem run_in_turn (first : Reader) (next : Expr → Reader) {lexemes : List Lexeme}
    (hleast : first.least = 1) (hrank : ∀ tree, (next tree).rank = 0)
    (h : 3 * lexemes.length + first.rank < depth) :
    (first.run puzzle depth lexemes >>= fun done => (next done.1).run puzzle depth done.2) =
      some (first.read puzzle lexemes >>= fun done => (next done.1).read puzzle done.2) := by
  apply bind_eq_some
  · exact ih first lexemes h
  · intro done hdone
    have hlength := length_of_read hdone
    apply ih
    rw [hrank]
    omega

/-- A chain goes on as long as one of its operators follows. -/
theorem run_onward (first : Reader) (next : Expr → Reader) (joins : Operator → Bool)
    {lhs : Expr} {lexemes : List Lexeme} {result : Except ParseError (Expr × List Lexeme)}
    (hleast : first.least = 1) (hrank : ∀ tree, (next tree).rank = 0) (hfirst : first.rank ≤ 1)
    (h : 3 * lexemes.length < depth + 1)
    (hend : (∀ op, joins op = true → lexemes.head? ≠ some (.token (.operator op))) →
      result = .ok (lhs, lexemes))
    (honward : ∀ op rest, joins op = true → lexemes = .token (.operator op) :: rest →
      result = (first.read puzzle rest >>= fun rhs =>
        (next (.binary op lhs rhs.1)).read puzzle rhs.2)) :
    (match Lexeme.operator? joins lexemes with
      | some (op, rest) => first.run puzzle depth rest >>= fun rhs =>
        (next (.binary op lhs rhs.1)).run puzzle depth rhs.2
      | none => return (lhs, lexemes) : ExceptT ParseError Option (Expr × List Lexeme)) =
      some result := by
  rcases operator?_cases joins lexemes with ⟨hnone, hhead⟩ | ⟨op, rest, rfl, hop, hsome⟩
  · rw [hnone, hend hhead]
    rfl
  · rw [hsome, honward op rest hop rfl]
    rw [List.length_cons] at h
    apply run_in_turn ih first (fun tree => next (.binary op lhs tree)) hleast
    · intro tree
      exact hrank _
    · omega

end Calls

/-- Three calls for each lexeme are enough, and two more for a formula that has none. -/
theorem run_eq {depth : Nat} (reader : Reader) (lexemes : List Lexeme)
    (h : 3 * lexemes.length + reader.rank < depth) :
    reader.run puzzle depth lexemes = some (reader.read puzzle lexemes) := by
  induction depth generalizing reader lexemes with
  | zero => cases h
  | succ depth ih =>
      cases reader with
      | expr =>
          rw [run, read, readExpr_eq]
          exact run_in_turn ih .term .terms rfl (fun _ => rfl) (Nat.lt_of_succ_lt_succ h)
      | term =>
          rw [run, read, readTerm_eq]
          exact run_in_turn ih .factor .factors rfl (fun _ => rfl) (Nat.lt_of_succ_lt_succ h)
      | terms lhs =>
          rw [run, read]
          apply run_onward ih .term .terms _ rfl (fun _ => rfl) (Nat.le_refl 1) h
          · exact readTerms_of_head? puzzle lhs
          · rintro op rest hop rfl
            exact readTerms_additive puzzle lhs hop rest
      | factors lhs =>
          rw [run, read]
          apply run_onward ih .factor .factors _ rfl (fun _ => rfl) (Nat.zero_le 1) h
          · intro hhead
            exact readFactors_of_head? puzzle lhs (hhead .mul rfl)
          · rintro op rest hop rfl
            obtain rfl : op = .mul := by simpa using hop
            exact readFactors_mul puzzle lhs rest
      | factor =>
          cases lexemes with
          | nil =>
              rw [run, read, readFactor, parseFactor]
              rfl
          | cons lexeme rest =>
              cases lexeme with
              | token token =>
                  rw [run, read, readFactor_token]
                  cases token.operand puzzle with
                  | error error => rfl
                  | ok tree => rfl
              | opening =>
                  rw [List.length_cons] at h
                  rw [run, read, readFactor_opening]
                  apply bind_eq_some
                  · apply ih
                    simp only [rank] at h ⊢
                    omega
                  · intro inner _
                    obtain ⟨tree, after⟩ := inner
                    cases after with
                    | nil => rfl
                    | cons next after => cases next <;> rfl
              | closing =>
                  rw [run, read, readFactor, parseFactor]
                  rfl

end Reader

/-- The parser with a limit on how many calls may be open at a time. -/
def parseWithin (puzzle : Puzzle) (depth : Nat) (lexemes : List Lexeme) :
    ExceptT ParseError Option Expr := do
  let read ← Reader.run puzzle depth .expr lexemes
  match read.2 with
  | [] => return read.1
  | lexeme :: _ => throw (.trailing lexeme.text)

theorem parseWithin_eq {puzzle : Puzzle} {depth : Nat} {lexemes : List Lexeme}
    (h : 3 * lexemes.length + 3 ≤ depth) :
    parseWithin puzzle depth lexemes = some (parse puzzle lexemes) := by
  rw [parseWithin, parse_eq]
  apply bind_eq_some
  · exact Reader.run_eq .expr lexemes h
  · intro read _
    obtain ⟨tree, rest⟩ := read
    cases rest with
    | nil => rfl
    | cons lexeme rest => rfl

end HatCircle
