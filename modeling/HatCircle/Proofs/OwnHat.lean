import HatCircle.Proofs.Compilation

/-!
# Nobody sees their own hat

A person may look at everything but the own hat. The variables of a puzzle keep to this if
none of them leads round the circle back to the person who reads it (`Puzzle.Blind`): the
own place is no hat, the sum of the others leaves the own hat out, and a neighbour is
somebody else (`seat_ne`). A tree has no other leaves than what its puzzle declares
(`Phrase.Builds.exact_congr`), so two assignments that differ in the hat of one person only
give that person the same guess (`guess_eq_of_agree`).
-/

namespace HatCircle

/-- No variable of the puzzle leads to the hat of the person who reads it: the distance to
a neighbour is no number of whole turns, and the neighbour is within reach of 64 bits. -/
structure Puzzle.Blind (puzzle : Puzzle) : Prop where
  words : ∀ entry ∈ puzzle.vocabulary, ∀ offset, entry.rule = .neighbor offset →
    ¬ (puzzle.personCount : Int) ∣ offset
  distances : ∀ family ∈ puzzle.brackets, ∀ distance : Nat, 1 ≤ distance → distance ≤ 9 →
    ¬ (puzzle.personCount : Int) ∣ family.direction * distance
  reach : puzzle.InReach

theorem Puzzle.blind_ten : Puzzle.ten.Blind := by
  refine ⟨?_, ?_, inReach_ten⟩
  · intro entry hentry offset hrule
    simp only [ten, List.mem_cons, List.not_mem_nil, or_false] at hentry
    rcases hentry with rfl | rfl
    · cases hrule
    · cases hrule
  · intro family hfamily distance hlow hhigh
    simp only [ten, List.mem_cons, List.not_mem_nil, or_false] at hfamily
    rcases hfamily with rfl | rfl
    · simp only [ten]
      omega
    · simp only [ten]
      omega

theorem Puzzle.blind_two : Puzzle.two.Blind := by
  refine ⟨?_, ?_, inReach_two⟩
  · intro entry hentry offset hrule
    simp only [two, List.mem_cons, List.not_mem_nil, or_false] at hentry
    rcases hentry with rfl | rfl
    · obtain rfl := Rule.neighbor.inj hrule
      decide
    · cases hrule
  · intro family hfamily
    cases hfamily

theorem Puzzle.Blind.not_dvd {puzzle : Puzzle} (h : puzzle.Blind) {name : String}
    {offset : Int} (hdeclared : puzzle.Declares name (.neighbor offset)) :
    ¬ (puzzle.personCount : Int) ∣ offset := by
  rcases hdeclared.rule_cases with ⟨entry, hentry, hrule⟩ | ⟨family, hfamily, distance, hlow,
    hhigh, hrule⟩
  · exact h.words entry hentry offset hrule
  · rw [BracketFamily.rule_eq (h.reach.distances family hfamily distance hlow hhigh).1] at hrule
    obtain rfl := Rule.neighbor.inj hrule
    exact h.distances family hfamily distance hlow hhigh

/-! ### What a variable reads -/

/-- Without whole turns the seat that an offset leads to is another one. -/
theorem seat_ne {person count : Nat} {offset : Int} (hperson : person < count)
    (hreach : InRange64 (person + offset)) (h : ¬ (count : Int) ∣ offset) :
    Rule.seat person offset count ≠ person := by
  intro hseat
  have hcount : (0 : Int) < count := by omega
  have hnonneg := Int.emod_nonneg ((person : Int) + offset) (Int.ne_of_gt hcount)
  have hmod : ((person : Int) + offset) % count = person := by
    rw [Rule.seat, wrap64_eq hreach] at hseat
    omega
  have hdvd := Int.dvd_self_sub_of_emod_eq hmod
  rw [add_sub_cancel_left] at hdvd
  exact h hdvd

section Agreement

variable {hats others : List Hat} {person : Nat}

/-- A rule that does not lead back gives a person the same number under assignments that
agree on the hats of everybody else. -/
theorem Rule.meaning_eq_of_agree (rule : Rule) (hlength : hats.length = others.length)
    (hperson : person < hats.length)
    (hagree : ∀ place, place ≠ person → hats[place]? = others[place]?)
    (hreach : rule.InReach hats.length)
    (hoffset : ∀ offset, rule = .neighbor offset → ¬ (hats.length : Int) ∣ offset) :
    rule.meaning hats person = rule.meaning others person := by
  have hworn : ∀ place, place ≠ person → hats.getD place 0 = others.getD place 0 := by
    intro place hplace
    rw [List.getD_eq_getElem?_getD, List.getD_eq_getElem?_getD, hagree place hplace]
  cases rule with
  | ownIndex => rfl
  | sumOfOthers =>
      simp only [meaning, hlength]
      apply Finset.sum_congr rfl
      intro place hplace
      rw [hworn place (Finset.ne_of_mem_erase hplace)]
  | neighbor offset =>
      have hseat := seat_ne hperson (hreach.2 person hperson) (hoffset offset rfl)
      unfold seat at hseat
      simp only [meaning, ← hlength]
      rw [hworn _ hseat]

end Agreement

/-- The value of the tree of a phrase depends on the person and the hats only through the
rules that the puzzle declares. -/
theorem Phrase.Builds.exact_congr {puzzle : Puzzle} {hats others : List Hat}
    {person other : Nat} {level : Level} {phrase : Phrase level} {tree : Expr}
    (h : phrase.Builds puzzle tree)
    (hrules : ∀ name rule, puzzle.Declares name rule →
      rule.meaning hats person = rule.meaning others other) :
    tree.exact hats person = tree.exact others other := by
  induction h with
  | number => rfl
  | «variable» hdeclared => exact hrules _ _ hdeclared
  | group _ ih => exact ih
  | factor _ ih => exact ih
  | times _ _ ihl ihr => rw [Expr.exact, Expr.exact, ihl, ihr]
  | product _ ih => exact ih
  | join _ _ ihl ihr => rw [Expr.exact, Expr.exact, ihl, ihr]

/-! ### What a formula reads -/

section Formula

variable {puzzle : Puzzle} {hats others : List Hat} {person : Nat}

/-- A tree of a blind puzzle has the same value for a person of the circle under assignments
that agree on the hats of everybody else. -/
theorem Puzzle.Blind.exact_eq (hblind : puzzle.Blind) {level : Level} {phrase : Phrase level}
    {tree : Expr} (hbuilds : phrase.Builds puzzle tree) (hperson : person < puzzle.personCount)
    (hhats : hats.length = puzzle.personCount) (hothers : others.length = puzzle.personCount)
    (hagree : ∀ place, place ≠ person → hats[place]? = others[place]?) :
    tree.exact hats person = tree.exact others person := by
  apply hbuilds.exact_congr
  intro name rule hdeclared
  have hreach := hblind.reach.rule hdeclared
  rw [← hhats] at hreach
  apply rule.meaning_eq_of_agree (hhats.trans hothers.symm) (hhats ▸ hperson) hagree hreach
  rintro offset rfl
  rw [hhats]
  exact hblind.not_dvd hdeclared

/-- If no variable of the puzzle leads to the own hat, no formula of the puzzle does: under
two assignments that agree on all hats but that of one person, it tells that person the
same. -/
theorem guess_eq_of_agree (hblind : puzzle.Blind) {source : String} {formula : Formula}
    (h : Formula.compile puzzle source = .ok formula) (hhats : hats.length = puzzle.personCount)
    (hothers : others.length = puzzle.personCount)
    (hagree : ∀ place, place ≠ person → hats[place]? = others[place]?) :
    formula.guess hats person = formula.guess others person := by
  obtain ⟨phrase, -, hbuilds, -, rfl⟩ := exists_builds_of_compile h
  by_cases hperson : person < formula.puzzle.personCount
  · rw [formula.guess_eq hhats hperson, formula.guess_eq hothers hperson,
      hblind.exact_eq hbuilds hperson hhats hothers hagree]
  · rw [formula.guess_eq_noGuess (hperson ·.2), formula.guess_eq_noGuess (hperson ·.2)]

end Formula

/-- The last of ten people, whose left neighbour is the first, is told the same when the own
hat changes from 9 to 4. -/
theorem guess_ten_set :
    Puzzle.ten.Blind ∧ Puzzle.two.Blind ∧
      ([0, 1, 2, 3, 4, 5, 6, 7, 8, 9] : List Hat).length = Puzzle.ten.personCount ∧
      (([0, 1, 2, 3, 4, 5, 6, 7, 8, 9] : List Hat).set 9 4).length = Puzzle.ten.personCount ∧
      ∃ formula, Formula.compile .ten "all - l[1]×i" = .ok formula ∧
        formula.guess [0, 1, 2, 3, 4, 5, 6, 7, 8, 9] 9 =
          formula.guess (([0, 1, 2, 3, 4, 5, 6, 7, 8, 9] : List Hat).set 9 4) 9 := by
  have hcompile : Formula.compile .ten "all - l[1]×i" = .ok
      { source := "all - l[1]×i"
        tokens := [.variable "all", .operator .sub, .variable "l[1]", .operator .mul, .variable "i"]
        tree := .binary .sub (.var "all" .sumOfOthers)
          (.binary .mul (.var "l[1]" (.neighbor 1)) (.var "i" .ownIndex))
        puzzle := .ten } := by decide +kernel
  refine ⟨Puzzle.blind_ten, Puzzle.blind_two, rfl, rfl, _, hcompile, ?_⟩
  apply guess_eq_of_agree Puzzle.blind_ten hcompile rfl rfl
  intro place hplace
  rw [List.getElem?_set_ne hplace.symm]

end HatCircle
