import Mathlib.Logic.Relation
import HatCircle.Proofs.Agreement
import HatCircle.Proofs.Canonical
import HatCircle.Proofs.Tally

/-!
# Respelled formulas

A text can be spelled in other ways that mean the same: with blanks elsewhere, with other digits
for a number that leave the same remainder, with parentheses around a part (`Respells`). The
parts of a text are found in its phrase: `Phrase.Context` is a phrase with a hole, and what
stands before and behind the hole are two stretches of the text (`text_plug`).

A part may be changed inside a phrase if the new part has the same tokens, as far as they are
counted, and a tree that differs in the digits of numbers at most (`Replaces.plug`). So every
respelled text compiles (`Respells.exists_compile`), to a tree which has the same values as the
tree before. The formulas agree then, and searches cannot tell them apart: where the draws come
to an end, both return the same (`respelled_means_same`).
-/

namespace HatCircle

/-! ### Trees up to their digits -/

/-- The tree with the digits of its numbers left out. Their values stay. -/
def Expr.unspelled : Expr → Expr
  | .number value _ => .number value ""
  | .var name rule => .var name rule
  | .binary op lhs rhs => .binary op lhs.unspelled rhs.unspelled

theorem Expr.exact_unspelled (hats : List Hat) (person : Nat) (tree : Expr) :
    tree.unspelled.exact hats person = tree.exact hats person := by
  induction tree with
  | number value literal => rfl
  | var name rule => rfl
  | binary op lhs rhs ihl ihr => rw [unspelled, exact, exact, ihl, ihr]

/-! ### Parts of phrases -/

/-- A phrase of level `level` with a hole where a part of level `own` stands. -/
inductive Phrase.Context (own : Level) : Level → Type where
  | hole : Context own own
  | group (inside : Context own .sum) : Context own .factor
  | factor (inside : Context own .factor) : Context own .product
  | timesLeft (inside : Context own .product) (rhs : Phrase .factor) : Context own .product
  | timesRight (lhs : Phrase .product) (inside : Context own .factor) : Context own .product
  | product (inside : Context own .product) : Context own .sum
  | joinLeft (inside : Context own .sum) (op : Operator) (additive : op.isAdditive = true)
      (rhs : Phrase .product) : Context own .sum
  | joinRight (lhs : Phrase .sum) (op : Operator) (additive : op.isAdditive = true)
      (inside : Context own .product) : Context own .sum

namespace Phrase

namespace Context

variable {own level : Level}

/-- The phrase with a part in the hole. -/
def plug (part : Phrase own) {level : Level} : Context own level → Phrase level
  | .hole => part
  | .group inside => .group (inside.plug part)
  | .factor inside => .factor (inside.plug part)
  | .timesLeft inside rhs => .times (inside.plug part) rhs
  | .timesRight lhs inside => .times lhs (inside.plug part)
  | .product inside => .product (inside.plug part)
  | .joinLeft inside op additive rhs => .join (inside.plug part) op additive rhs
  | .joinRight lhs op additive inside => .join lhs op additive (inside.plug part)

/-- The text before the hole. -/
def front {level : Level} : Context own level → List Char
  | .hole => []
  | .group inside => '(' :: inside.front
  | .factor inside => inside.front
  | .timesLeft inside _ => inside.front
  | .timesRight lhs inside => lhs.text ++ '×' :: inside.front
  | .product inside => inside.front
  | .joinLeft inside _ _ _ => inside.front
  | .joinRight lhs op _ inside => lhs.text ++ op.sign :: inside.front

/-- The text behind the hole. -/
def back {level : Level} : Context own level → List Char
  | .hole => []
  | .group inside => inside.back ++ [')']
  | .factor inside => inside.back
  | .timesLeft inside rhs => inside.back ++ '×' :: rhs.text
  | .timesRight _ inside => inside.back
  | .product inside => inside.back
  | .joinLeft inside op _ rhs => inside.back ++ op.sign :: rhs.text
  | .joinRight _ _ _ inside => inside.back

theorem text_plug (context : Context own level) (part : Phrase own) :
    (context.plug part).text = context.front ++ part.text ++ context.back := by
  induction context with
  | hole => simp [plug, front, back]
  | group inside ih => simp [plug, front, back, text, ih]
  | factor inside ih => simp [plug, front, back, text, ih]
  | timesLeft inside rhs ih => simp [plug, front, back, text, ih]
  | timesRight lhs inside ih => simp [plug, front, back, text, ih]
  | product inside ih => simp [plug, front, back, text, ih]
  | joinLeft inside op additive rhs ih => simp [plug, front, back, text, ih]
  | joinRight lhs op additive inside ih => simp [plug, front, back, text, ih]

end Context

/-- One phrase may stand for another one: it belongs to every puzzle that the other one belongs
to, with as many tokens, and its tree differs in the digits of numbers at most. -/
structure Replaces (puzzle : Puzzle) {level : Level} (other part : Phrase level) : Prop where
  admitted : part.Admitted puzzle → other.Admitted puzzle
  tokenCount : other.tokenCount = part.tokenCount
  builds : ∀ tree, part.Builds puzzle tree →
    ∃ tree', other.Builds puzzle tree' ∧ tree'.unspelled = tree.unspelled

variable {puzzle : Puzzle} {own level : Level}

theorem Replaces.refl (part : Phrase level) : part.Replaces puzzle part :=
  ⟨id, rfl, fun tree h => ⟨tree, h, rfl⟩⟩

theorem Replaces.group {other part : Phrase .sum} (h : other.Replaces puzzle part) :
    (Phrase.group other).Replaces puzzle (.group part) := by
  refine ⟨h.admitted, h.tokenCount, fun tree hbuilds => ?_⟩
  cases hbuilds with
  | group built =>
      obtain ⟨tree', hbuilds', heq⟩ := h.builds tree built
      exact ⟨tree', .group hbuilds', heq⟩

theorem Replaces.factor {other part : Phrase .factor} (h : other.Replaces puzzle part) :
    (Phrase.factor other).Replaces puzzle (.factor part) := by
  refine ⟨h.admitted, h.tokenCount, fun tree hbuilds => ?_⟩
  cases hbuilds with
  | factor built =>
      obtain ⟨tree', hbuilds', heq⟩ := h.builds tree built
      exact ⟨tree', .factor hbuilds', heq⟩

theorem Replaces.product {other part : Phrase .product} (h : other.Replaces puzzle part) :
    (Phrase.product other).Replaces puzzle (.product part) := by
  refine ⟨h.admitted, h.tokenCount, fun tree hbuilds => ?_⟩
  cases hbuilds with
  | product built =>
      obtain ⟨tree', hbuilds', heq⟩ := h.builds tree built
      exact ⟨tree', .product hbuilds', heq⟩

theorem Replaces.times {lhs' lhs : Phrase .product} {rhs' rhs : Phrase .factor}
    (hl : lhs'.Replaces puzzle lhs) (hr : rhs'.Replaces puzzle rhs) :
    (Phrase.times lhs' rhs').Replaces puzzle (.times lhs rhs) := by
  refine ⟨fun h => ⟨hl.admitted h.1, hr.admitted h.2⟩, ?_, fun tree hbuilds => ?_⟩
  · rw [Phrase.tokenCount, Phrase.tokenCount, hl.tokenCount, hr.tokenCount]
  · cases hbuilds with
    | times leftBuilt rightBuilt =>
        obtain ⟨left, hleft, hlhs⟩ := hl.builds _ leftBuilt
        obtain ⟨right, hright, hrhs⟩ := hr.builds _ rightBuilt
        exact ⟨_, .times hleft hright, by rw [Expr.unspelled, hlhs, hrhs, Expr.unspelled]⟩

theorem Replaces.join {lhs' lhs : Phrase .sum} {rhs' rhs : Phrase .product} (op : Operator)
    (additive : op.isAdditive = true) (hl : lhs'.Replaces puzzle lhs)
    (hr : rhs'.Replaces puzzle rhs) :
    (Phrase.join lhs' op additive rhs').Replaces puzzle (.join lhs op additive rhs) := by
  refine ⟨fun h => ⟨hl.admitted h.1, hr.admitted h.2⟩, ?_, fun tree hbuilds => ?_⟩
  · rw [Phrase.tokenCount, Phrase.tokenCount, hl.tokenCount, hr.tokenCount]
  · cases hbuilds with
    | join leftBuilt rightBuilt =>
        obtain ⟨left, hleft, hlhs⟩ := hl.builds _ leftBuilt
        obtain ⟨right, hright, hrhs⟩ := hr.builds _ rightBuilt
        exact ⟨_, .join hleft hright, by rw [Expr.unspelled, hlhs, hrhs, Expr.unspelled]⟩

/-- What may stand for a part may do so inside a phrase. -/
theorem Replaces.plug {other part : Phrase own} (h : other.Replaces puzzle part)
    (context : Context own level) :
    (context.plug other).Replaces puzzle (context.plug part) := by
  induction context with
  | hole => exact h
  | group inside ih => exact ih.group
  | factor inside ih => exact ih.factor
  | timesLeft inside rhs ih => exact ih.times (.refl rhs)
  | timesRight lhs inside ih => exact .times (.refl lhs) ih
  | product inside ih => exact ih.product
  | joinLeft inside op additive rhs ih => exact ih.join op additive (.refl rhs)
  | joinRight lhs op additive inside ih => exact .join op additive (.refl lhs) ih

/-- A number may be replaced by one that leaves the same remainder. -/
theorem replaces_number {digits digits' : String} (hnumber : puzzle.IsNumber digits'.toList)
    (hsame : Numeral.value digits'.toList ≡ Numeral.value digits.toList [MOD puzzle.base.toNat])
    (hbase : 1 ≤ puzzle.base.toNat) :
    (Phrase.number digits').Replaces puzzle (.number digits) := by
  refine ⟨fun _ => hnumber, rfl, fun tree hbuilds => ?_⟩
  cases hbuilds with
  | number run =>
      refine ⟨_, .number fun c hc => (hnumber.2 c hc).1, ?_⟩
      rw [Expr.unspelled, Expr.unspelled, modulus_eq hbase, Int.natCast_modEq_iff.2 hsame]

/-- The phrase in further parentheses. -/
def wrap (phrase : Phrase level) : Phrase level :=
  (Phrase.group (phrase.raise .sum)).raise level

theorem text_wrap (phrase : Phrase level) : phrase.wrap.text = '(' :: (phrase.text ++ [')']) := by
  cases level <;> rfl

theorem replaces_wrap (phrase : Phrase level) : phrase.wrap.Replaces puzzle phrase := by
  refine ⟨?_, ?_, fun tree hbuilds => ⟨tree, ?_, rfl⟩⟩
  · intro h
    rw [wrap, admitted_raise]
    exact (phrase.admitted_raise .sum).2 h
  · cases level <;> rfl
  · exact (Builds.group (hbuilds.raise .sum)).raise level

end Phrase

/-! ### Respelling a text -/

/-- The text of a part stands between two stretches of the text of a phrase of the puzzle,
blanks apart. -/
def Phrase.Stands (puzzle : Puzzle) {own : Level} (part : Phrase own)
    (front middle back : List Char) : Prop :=
  ∃ context : Context own .sum, (context.plug part).Admitted puzzle ∧
    Text.compact front = context.front ∧ Text.compact middle = part.text ∧
    Text.compact back = context.back

/-- One change of the spelling: a blank more or less, other digits of a number that leaves the
same remainder, or parentheses around a part. -/
inductive Respells (puzzle : Puzzle) : List Char → List Char → Prop where
  | insert {c : Char} (front back : List Char) (blank : isBlank c = true) :
      Respells puzzle (front ++ back) (front ++ c :: back)
  | delete {c : Char} (front back : List Char) (blank : isBlank c = true) :
      Respells puzzle (front ++ c :: back) (front ++ back)
  | number {front middle back : List Char} {digits digits' : String}
      (stands : (Phrase.number digits).Stands puzzle front middle back)
      (allowed : puzzle.IsNumber digits'.toList)
      (same : Numeral.value digits'.toList ≡ Numeral.value digits.toList
        [MOD puzzle.base.toNat]) :
      Respells puzzle (front ++ middle ++ back) (front ++ digits'.toList ++ back)
  | parentheses {own : Level} {part : Phrase own} {front middle back : List Char}
      (stands : part.Stands puzzle front middle back) :
      Respells puzzle (front ++ middle ++ back) (front ++ '(' :: (middle ++ ')' :: back))

theorem Text.compact_append_blank {c : Char} (h : isBlank c = true) (front back : List Char) :
    compact (front ++ c :: back) = compact (front ++ back) := by
  simp [compact, List.filter_append, h]

/-- The neighbours of a formula are within reach where those of its puzzle are. -/
theorem inReach_of_compile {puzzle : Puzzle} (hreach : puzzle.InReach)
    (hcount : puzzle.personCount ≤ 2 ^ 55) {source : String} {formula : Formula}
    (h : Formula.compile puzzle source = .ok formula) : formula.InReach := by
  obtain ⟨phrase, -, hbuilds, -, rfl⟩ := exists_builds_of_compile h
  exact ⟨hcount, hbuilds.inReach hreach⟩

section Respelling

variable {puzzle : Puzzle} (wf : puzzle.WellFormed)
include wf

/-- A text compiles with a phrase that may stand for the phrase of another text that does. -/
theorem compile_of_replaces {source source' : String} {formula : Formula}
    (h : Formula.compile puzzle source = .ok formula) {whole other : Phrase .sum}
    (hwhole : whole.Admitted puzzle) (htext : whole.text = Text.compact source.toList)
    (hreplaces : other.Replaces puzzle whole)
    (htext' : other.text = Text.compact source'.toList) :
    ∃ formula', Formula.compile puzzle source' = .ok formula' ∧
      formula'.tree.unspelled = formula.tree.unspelled := by
  have hbuilds := builds_of_compile wf h hwhole htext
  obtain ⟨tree, hother, htree⟩ := hreplaces.builds _ hbuilds
  obtain ⟨lexemes, haccepted, -, -, -, -⟩ := (compile_eq_ok_iff ..).1 h
  -- the text has one list of lexemes, so the limit on tokens holds for the phrase as well
  have hsplits := whole.splits_text wf hwhole
  rw [htext] at hsplits
  obtain rfl := haccepted.splits.unique hsplits
  have hlimit : (Lexeme.tokens other.lexemes).length ≤ maxTokens := by
    rw [other.length_tokens, hreplaces.tokenCount, ← whole.length_tokens]
    exact haccepted.limit
  exact ⟨_, hother.compile_eq wf (hreplaces.admitted hwhole) rfl hlimit htext', htree⟩

/-- Texts that differ in blanks compile alike. -/
theorem compile_of_compact_eq {source source' : String} {formula : Formula}
    (h : Formula.compile puzzle source = .ok formula)
    (heq : Text.compact source'.toList = Text.compact source.toList) :
    ∃ formula', Formula.compile puzzle source' = .ok formula' ∧
      formula'.tree.unspelled = formula.tree.unspelled := by
  obtain ⟨lexemes, haccepted, -, -, -, -⟩ := (compile_eq_ok_iff ..).1 h
  obtain ⟨whole, hwhole, rfl⟩ := haccepted.exists_admitted wf
  exact compile_of_replaces wf h hwhole haccepted.text_eq (.refl whole)
    (haccepted.text_eq.trans heq.symm)

/-- A change of the spelling keeps a text compiling, to the same tree up to digits. -/
theorem Respells.exists_compile (hbase : 1 ≤ puzzle.base.toNat) {text text' : List Char}
    (h : Respells puzzle text text') {formula : Formula}
    (hformula : Formula.compile puzzle (String.ofList text) = .ok formula) :
    ∃ formula', Formula.compile puzzle (String.ofList text') = .ok formula' ∧
      formula'.tree.unspelled = formula.tree.unspelled := by
  cases h with
  | insert front back blank =>
      refine compile_of_compact_eq wf hformula ?_
      rw [String.toList_ofList, String.toList_ofList, Text.compact_append_blank blank]
  | delete front back blank =>
      refine compile_of_compact_eq wf hformula ?_
      rw [String.toList_ofList, String.toList_ofList, Text.compact_append_blank blank]
  | number stands allowed same =>
      obtain ⟨context, hwhole, hfront, hmiddle, hback⟩ := stands
      refine compile_of_replaces wf hformula hwhole ?_
        ((Phrase.replaces_number allowed same hbase).plug context) ?_
      · simp only [String.toList_ofList, Text.compact_append, hfront, hmiddle, hback,
          context.text_plug]
      · simp only [String.toList_ofList, Text.compact_append, hfront, hback, context.text_plug,
          allowed.compact_eq, Phrase.text]
  | @parentheses _ part _ _ _ stands =>
      obtain ⟨context, hwhole, hfront, hmiddle, hback⟩ := stands
      refine compile_of_replaces wf hformula hwhole ?_ (part.replaces_wrap.plug context) ?_
      · simp only [String.toList_ofList, Text.compact_append, hfront, hmiddle, hback,
          context.text_plug]
      · simp only [String.toList_ofList, Text.compact_append, Text.compact_parentheses, hfront,
          hmiddle, hback, context.text_plug, Phrase.text_wrap, List.append_assoc,
          List.cons_append, List.nil_append]

/-- So do any number of them. -/
theorem exists_compile_of_respells (hbase : 1 ≤ puzzle.base.toNat) {text text' : List Char}
    (h : Relation.ReflTransGen (Respells puzzle) text text') {formula : Formula}
    (hformula : Formula.compile puzzle (String.ofList text) = .ok formula) :
    ∃ formula', Formula.compile puzzle (String.ofList text') = .ok formula' ∧
      formula'.tree.unspelled = formula.tree.unspelled := by
  induction h with
  | refl => exact ⟨formula, hformula, rfl⟩
  | tail _ hstep ih =>
      obtain ⟨middle, hmiddle, htree⟩ := ih
      obtain ⟨formula', hformula', htree'⟩ := hstep.exists_compile wf hbase hmiddle
      exact ⟨formula', hformula', htree'.trans htree⟩

/-- An accepted text may be respelled at will. It stays accepted with the same tree up to the
digits of numbers, everybody guesses the same under all hats, and every search takes the same
course from the same state of its source. Where the draws come to an end, the searches for both
formulas return one result, and so do the batches. With neighbours within reach of 64 bits, none
of the guesses wraps around on the way. -/
theorem respelled_means_same (hbase : 1 ≤ puzzle.base.toNat) {source source' : String}
    (haccepted : ∃ tokens, check puzzle source = .ok tokens)
    (h : Relation.ReflTransGen (Respells puzzle) source.toList source'.toList) :
    ∃ formula formula', Formula.compile puzzle source = .ok formula ∧
      Formula.compile puzzle source' = .ok formula' ∧
      check puzzle source' = .ok formula'.tokens ∧
      formula'.tree.unspelled = formula.tree.unspelled ∧
      (∀ hats person, formula'.guess hats person = formula.guess hats person) ∧
      formula'.exhaustive = formula.exhaustive ∧
      (∀ {σ : Type} [WordSource σ] (bounds : Bounds) (cap : Option Nat) (clock : Nat → Bool)
        (state : σ), formula'.randomized bounds cap clock state =
          formula.randomized bounds cap clock state) ∧
      (∀ {σ : Type} [WordSource σ] (cap : Option Nat) (clock : Nat → Bool) (state : σ),
        formula.Halts cap clock state → ∃ result,
          Bounds.Yields (fun bounds => formula.randomized bounds cap clock state) result ∧
          Bounds.Yields (fun bounds => formula'.randomized bounds cap clock state) result) ∧
      (∀ bounds options clock fresh runs, formula'.batch bounds options clock fresh runs =
        formula.batch bounds options clock fresh runs) ∧
      (∀ (options : Options) (clock : Nat → Nat → Bool) (fresh : UInt64) (runs : Nat),
        (puzzle.strategy = .randomized → ∀ run < runs, formula.Halts options.maxTrials (clock run)
          (Generator.ofSeed (Formula.runSeed (options.seed.getD fresh) run))) → ∃ result,
          Bounds.Yields (fun bounds => formula.batch bounds options clock fresh runs) result ∧
          Bounds.Yields (fun bounds => formula'.batch bounds options clock fresh runs) result) ∧
      (puzzle.InReach → puzzle.personCount ≤ 2 ^ 55 → formula.Exact64 ∧ formula'.Exact64) := by
  obtain ⟨tokens, htokens⟩ := haccepted
  obtain ⟨lexemes, haccepted, -⟩ := (check_eq_ok_iff ..).1 htokens
  obtain ⟨formula, hformula⟩ := exists_compile wf.unmarked haccepted
  obtain ⟨formula', hformula', htree⟩ := exists_compile_of_respells wf hbase h
    (by rwa [String.ofList_toList])
  rw [String.ofList_toList] at hformula'
  obtain ⟨-, -, -, -, -, hpuzzle⟩ := (compile_eq_ok_iff ..).1 hformula
  obtain ⟨lexemes', haccepted', -, -, htokens', hpuzzle'⟩ := (compile_eq_ok_iff ..).1 hformula'
  have hsame : formula'.puzzle = formula.puzzle := hpuzzle'.trans hpuzzle.symm
  have hexact : ∀ hats person,
      formula'.tree.exact hats person = formula.tree.exact hats person := by
    intro hats person
    rw [← Expr.exact_unspelled, htree, Expr.exact_unspelled]
  have agrees : formula'.Agrees formula := ⟨hsame, Formula.guess_congr hsame hexact⟩
  refine ⟨formula, formula', hformula, hformula', ?_, htree, agrees.guess, agrees.exhaustive_eq,
    ?_, ?_, agrees.batch_eq, ?_, ?_⟩
  · exact (check_eq_ok_iff ..).2 ⟨lexemes', haccepted', htokens'.symm⟩
  · intro σ _ bounds cap clock state
    exact agrees.randomized_eq cap bounds clock state
  · intro σ _ cap clock state hhalts
    obtain ⟨result, hresult⟩ := hhalts.exists_yields
    refine ⟨result, hresult, ?_⟩
    simpa only [agrees.randomized_eq] using hresult
  · intro options clock fresh runs hhalts
    rw [← hpuzzle] at hhalts
    obtain ⟨result, hresult⟩ := Formula.exists_yields_batch hhalts
    refine ⟨result, hresult, ?_⟩
    simpa only [agrees.batch_eq] using hresult
  · intro hreach hcount
    exact ⟨(inReach_of_compile hreach hcount hformula).exact64,
      (inReach_of_compile hreach hcount hformula').exact64⟩

end Respelling

/-- In the circle of ten, less three. -/
def Formula.lessThree : Formula where
  source := "i - 3"
  tokens := [.variable "i", .operator .sub, .number "3"]
  tree := .binary .sub (.var "i" .ownIndex) (.number 3 "3")
  puzzle := .ten

/-- From any of these seeds the first draw takes one attempt for each hat, so a search that may
try one assignment halts. -/
theorem Formula.halts_lessThree {seed : UInt64}
    (h : (WordSource.drawAssignment 1 .ten (Generator.ofSeed seed)).isSome = true) :
    Formula.lessThree.Halts (some 1) (fun _ => false) (Generator.ofSeed seed) := by
  obtain ⟨⟨drawn, rest⟩, hdraw⟩ := Option.isSome_iff_exists.1 h
  have hstops : lessThree.Stops (some 1) (fun _ => false) 1 drawn :=
    .inr (.inl ⟨1, rfl, Nat.le_refl 1⟩)
  exact halts_of_draws (WordSource.draws_of_drawAssignment hdraw) hstops

/-- In the circle of ten 13 leaves what 3 leaves. Parentheses and a blank are put in as well. From
the seed 7 the first draw refutes both formulas, and of three searches with seeds made from it
the same one does. -/
theorem respelled_ten :
    Puzzle.ten.WellFormed ∧ 1 ≤ Puzzle.ten.base.toNat ∧
      (∃ tokens, check .ten "i - 3" = .ok tokens) ∧
      Relation.ReflTransGen (Respells .ten) "i - 3".toList "( i) - 13".toList ∧
      Formula.compile .ten "i - 3" = .ok Formula.lessThree ∧
      ∃ formula', Formula.compile .ten "( i) - 13" = .ok formula' ∧
        formula'.tree.unspelled = Formula.lessThree.tree.unspelled ∧
        (∃ rest, Bounds.Yields
          (fun bounds => formula'.randomized bounds (some 1) (fun _ => false) (Generator.ofSeed 7))
          (⟨.counterexample ⟨[4, 0, 1, 3, 0, 1, 6, 5, 6, 2]⟩, .randomized, 1, false⟩, rest)) ∧
        Bounds.Yields (fun bounds => formula'.batch bounds { seed := some 7, maxTrials := some 1 }
            (fun _ _ => false) 0 3)
          ⟨7, 3, 1, 2, some ⟨[0, 2, 7, 5, 7, 7, 5, 8, 3, 1]⟩⟩ ∧
        Formula.lessThree.Exact64 ∧ formula'.Exact64 := by
  have hentry : (⟨"i", .ownIndex⟩ : NamedVariable) ∈ Puzzle.ten.vocabulary := by decide
  have hthree : Puzzle.ten.IsNumber "3".toList := by decide
  have hmore : Puzzle.ten.IsNumber "13".toList := by decide
  have hnumber : (Phrase.number "3").Stands .ten "i - ".toList "3".toList [] :=
    ⟨.joinRight (.product (.factor (.variable "i"))) .sub rfl (.factor .hole), ⟨.word hentry, hthree⟩,
      by decide, by decide, by decide⟩
  have hplace : (Phrase.variable "i").Stands .ten [] "i".toList " - 13".toList :=
    ⟨.joinLeft (.product (.factor .hole)) .sub rfl (.factor (.number "13")), ⟨.word hentry, hmore⟩,
      by decide, by decide, by decide⟩
  have hfirst : Respells .ten "i - 3".toList "i - 13".toList :=
    .number hnumber hmore (by decide)
  have hsecond : Respells .ten "i - 13".toList "(i) - 13".toList := .parentheses hplace
  have hthird : Respells .ten "(i) - 13".toList "( i) - 13".toList :=
    .insert "(".toList "i) - 13".toList (by decide)
  have hsteps : Relation.ReflTransGen (Respells .ten) "i - 3".toList "( i) - 13".toList :=
    .tail (.tail (.single hfirst) hsecond) hthird
  have haccepted : ∃ tokens, check .ten "i - 3" = .ok tokens :=
    ⟨[.variable "i", .operator .sub, .number "3"], by decide +kernel⟩
  have hcompile : Formula.compile .ten "i - 3" = .ok Formula.lessThree := by decide +kernel
  have hsearch : (Formula.lessThree.randomized ⟨1, 1⟩ (some 1) (fun _ => false)
      (Generator.ofSeed 7)).map Prod.fst =
        some ⟨.counterexample ⟨[4, 0, 1, 3, 0, 1, 6, 5, 6, 2]⟩, .randomized, 1, false⟩ := by
    decide +kernel
  have hbatch : Formula.lessThree.batch ⟨1, 1⟩ { seed := some 7, maxTrials := some 1 }
      (fun _ _ => false) 0 3 = some ⟨7, 3, 1, 2, some ⟨[0, 2, 7, 5, 7, 7, 5, 8, 3, 1]⟩⟩ := by
    decide +kernel
  obtain ⟨formula, formula', hformula, hformula', -, htree, -, -, -, hrandom, -, hruns, hexact⟩ :=
    respelled_means_same Puzzle.wellFormed_ten (by decide) haccepted hsteps
  obtain rfl := Except.ok.inj (hformula.symm.trans hcompile)
  refine ⟨Puzzle.wellFormed_ten, by decide, haccepted, hsteps, hcompile, formula', hformula',
    htree, ?_, ?_, hexact Puzzle.inReach_ten (by decide)⟩
  · obtain ⟨⟨report, rest⟩, hresult, hresult'⟩ :=
      hrandom (some 1) (fun _ => false) (Generator.ofSeed 7)
        (Formula.halts_lessThree (by decide +kernel))
    obtain ⟨result, hsome, hreport⟩ := Option.map_eq_some_iff.1 hsearch
    obtain rfl := hresult.only _ _ hsome
    obtain rfl : report = _ := hreport
    exact ⟨rest, hresult'⟩
  · obtain ⟨result, hresult, hresult'⟩ :=
      hruns { seed := some 7, maxTrials := some 1 } (fun _ _ => false) 0 3 fun _ run hrun =>
        Formula.halts_lessThree (by interval_cases run <;> decide +kernel)
    obtain rfl := hresult.only _ _ hbatch
    exact hresult'

end HatCircle
