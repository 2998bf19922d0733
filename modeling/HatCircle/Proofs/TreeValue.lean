import HatCircle.Proofs.Evaluation
import HatCircle.Proofs.Recognition
import HatCircle.Proofs.Regrouping

/-!
# The value of any tree

Evaluation takes trees as they come: their numbers need not be reduced, their variables need
not be declared anywhere, and there need not be any colours. A tree has a value for every
person of the circle, and without variables it has one for everybody else too: its exact
value, reduced. Otherwise evaluation ends at the variable that comes first from left to right
(`evaluate_outside`).

Operands are reduced before an operator is applied to them, so no operation of a tree leaves
64 bits, however large its numbers are (`inRange64_of_evaluate`). `Expr.run64` is evaluation
with 64-bit numbers, in which every number that has to be held is checked to be one and nothing
wraps around. It is evaluation as long as the numbers of the tree are such numbers and the places
of neighbours can be computed (`run64_eq`); then all guesses are made that way
(`Formula.InReach.exact64`).
-/

namespace HatCircle

def Token.variable? : Token → Option String
  | .variable name => some name
  | _ => none

namespace Expr

variable {base : UInt8} {hats : List Hat} {person : Nat}

/-! ### The first variable -/

/-- The name of the first variable of a tree from left to right. -/
def leftmostVariable? (tree : Expr) : Option String :=
  tree.tokens.findSome? Token.variable?

theorem leftmostVariable?_binary (op : Operator) (lhs rhs : Expr) :
    (binary op lhs rhs).leftmostVariable? =
      lhs.leftmostVariable?.or rhs.leftmostVariable? := by
  simp only [leftmostVariable?, tokens, List.findSome?_append, List.findSome?_cons,
    Token.variable?]

/-- For a person outside the circle a tree has a value only if it has no variable. Otherwise
the first variable is what cannot be resolved: the left operand is evaluated first. -/
theorem evaluate_outside (base : UInt8) (h : hats.length ≤ person) (tree : Expr) :
    tree.evaluate base hats person =
      match tree.leftmostVariable? with
      | none => .ok (tree.exact hats person % Puzzle.modulus base)
      | some name => .error (.unresolvedVariable name) := by
  induction tree with
  | number value literal =>
      rw [evaluate, toNat_normalize]
      rfl
  | var name rule =>
      have hresolve : rule.resolve person hats = none := if_neg (Nat.not_lt.2 h)
      rw [evaluate, hresolve]
      rfl
  | binary op lhs rhs ihl ihr =>
      rw [evaluate, leftmostVariable?_binary, ihl]
      cases hleft : lhs.leftmostVariable? with
      | some name => rfl
      | none =>
          rw [ihr]
          cases hright : rhs.leftmostVariable? with
          | some name => rfl
          | none =>
              simp only [bind, Except.bind, pure, Except.pure, Operator.apply_emod, exact,
                Option.or]

/-! ### Bounds -/

/-- Whatever evaluation returns is the exact value, reduced. -/
theorem eq_of_evaluate {tree : Expr} {value : Int}
    (h : tree.evaluate base hats person = .ok value) :
    value = tree.exact hats person % Puzzle.modulus base := by
  by_cases hperson : person < hats.length
  · rw [evaluate_eq base hperson] at h
    exact (Except.ok.inj h).symm
  · rw [evaluate_outside base (Nat.not_lt.1 hperson)] at h
    cases hleftmost : tree.leftmostVariable? with
    | none =>
        rw [hleftmost] at h
        exact (Except.ok.inj h).symm
    | some name =>
        rw [hleftmost] at h
        cases h

theorem bounds_of_evaluate {tree : Expr} {value : Int}
    (h : tree.evaluate base hats person = .ok value) : 0 ≤ value ∧ value < 255 := by
  rw [eq_of_evaluate h]
  exact emod_modulus_bounds base _

/-- The operations of a tree with their operands, from left to right. -/
def operations : Expr → List (Operator × Expr × Expr)
  | .number _ _ => []
  | .var _ _ => []
  | .binary op lhs rhs => lhs.operations ++ (op, lhs, rhs) :: rhs.operations

/-- The values of two operands are colours, so no operation on them is too large. -/
theorem inRange64_of_evaluate (op : Operator) {lhs rhs : Expr} {l r : Int}
    (hl : lhs.evaluate base hats person = .ok l) (hr : rhs.evaluate base hats person = .ok r) :
    InRange64 (op.exact l r) :=
  op.inRange64_exact (bounds_of_evaluate hl) (bounds_of_evaluate hr)

/-! ### Evaluation with 64-bit numbers -/

/-- Evaluation of any tree with 64-bit numbers. There is no result if a number that has to be
held on the way is too large. -/
def run64 (base : UInt8) (hats : List Hat) (person : Nat) : Expr → ExceptT EvalError Option Int
  | .number value _ => do
    let value ← fit64 value
    return value % Puzzle.modulus base
  | .var name rule =>
    if person < hats.length then do
      let value ← rule.resolve64 person hats
      return value % Puzzle.modulus base
    else throw (.unresolvedVariable name)
  | .binary op lhs rhs => do
    let l ← lhs.run64 base hats person
    let r ← rhs.run64 base hats person
    op.apply64 base l r

/-- The numbers of the tree fit in 64 bits, and so does what its variables have to hold. -/
def Fits64 (hats : List Hat) (person : Nat) : Expr → Prop
  | .number value _ => InRange64 value
  | .var _ rule => rule.Fits64 hats person
  | .binary _ lhs rhs => lhs.Fits64 hats person ∧ rhs.Fits64 hats person

instance decidableFits64 (hats : List Hat) (person : Nat) :
    (tree : Expr) → Decidable (tree.Fits64 hats person)
  | .number value _ => inferInstanceAs (Decidable (InRange64 value))
  | .var _ rule => inferInstanceAs (Decidable (rule.Fits64 hats person))
  | .binary _ lhs rhs =>
    have := decidableFits64 hats person lhs
    have := decidableFits64 hats person rhs
    inferInstanceAs (Decidable (_ ∧ _))

/-- With numbers that fit, evaluation with 64-bit numbers is evaluation: it ends, in a value
or at a variable, before anything is too large. -/
theorem run64_eq (base : UInt8) (hcount : (hats.length : Int) < 2 ^ 63) {tree : Expr}
    (h : tree.Fits64 hats person) :
    tree.run64 base hats person = some (tree.evaluate base hats person) := by
  induction tree with
  | number value literal =>
      rw [run64, fit64_eq h, evaluate, toNat_normalize]
      rfl
  | var name rule =>
      rw [run64, evaluate]
      by_cases hperson : person < hats.length
      · have hrule : rule.Fits64 hats person := h
        rw [if_pos hperson, hrule.resolve64_eq hcount hperson, rule.resolve_eq hperson]
        simp only [toNat_normalize]
        rfl
      · have hresolve : rule.resolve person hats = none := if_neg hperson
        rw [if_neg hperson, hresolve]
        rfl
  | binary op lhs rhs ihl ihr =>
      rw [run64, evaluate]
      apply bind_eq_some (ihl h.1)
      intro l hl
      apply bind_eq_some (ihr h.2)
      intro r hr
      rw [op.apply64_eq base (bounds_of_evaluate hl) (bounds_of_evaluate hr)]
      rfl

theorem InReach.fits64 {tree : Expr} (h : tree.InReach hats.length) (hcount : hats.length ≤ 2 ^ 55)
    (hperson : person < hats.length) : tree.Fits64 hats person := by
  induction tree with
  | number value literal => exact h
  | var name rule =>
      cases rule with
      | ownIndex => trivial
      | sumOfOthers => exact hatSum_lt hcount
      | neighbor offset => exact ⟨h.1, h.2 person hperson⟩
  | binary op lhs rhs ihl ihr => exact ⟨ihl h.1, ihr h.2⟩

/-! ### Every tree, every person -/

/-- For a person of the circle, and for anybody if the tree has no variable, evaluation
returns the exact value of the tree, reduced to a number from zero up to the number of
colours. For everybody else it names the first variable of the tree. No operation on the way
leaves 64 bits, and if the leaves do not, then all of it can be done with 64-bit numbers. -/
theorem evaluate_every_tree (base : UInt8) (hats : List Hat) (person : Nat) (tree : Expr) :
    (person < hats.length ∨ tree.leftmostVariable? = none →
      tree.evaluate base hats person = .ok (tree.exact hats person % Puzzle.modulus base)) ∧
    (hats.length ≤ person → ∀ name, tree.leftmostVariable? = some name →
      tree.evaluate base hats person = .error (.unresolvedVariable name)) ∧
    (∀ value, tree.evaluate base hats person = .ok value →
      0 ≤ value ∧ value < max (base.toNat : Int) 1) ∧
    (∀ op lhs rhs, (op, lhs, rhs) ∈ tree.operations →
      ∀ l r, lhs.evaluate base hats person = .ok l → rhs.evaluate base hats person = .ok r →
        InRange64 (op.exact l r)) ∧
    ((hats.length : Int) < 2 ^ 63 → tree.Fits64 hats person →
      tree.run64 base hats person = some (tree.evaluate base hats person)) := by
  refine ⟨?_, ?_, ?_, ?_, ?_⟩
  · intro h
    by_cases hperson : person < hats.length
    · exact tree.evaluate_eq base hperson
    · have hnone : tree.leftmostVariable? = none := h.resolve_left hperson
      rw [evaluate_outside base (Nat.not_lt.1 hperson), hnone]
  · intro hperson name hname
    rw [evaluate_outside base hperson, hname]
  · intro value hvalue
    have hpos := modulus_pos base
    rw [eq_of_evaluate hvalue]
    exact ⟨Int.emod_nonneg _ (Int.ne_of_gt hpos), Int.emod_lt_of_pos _ hpos⟩
  · intro op lhs rhs _ l r hl hr
    exact inRange64_of_evaluate op hl hr
  · intro hcount hfits
    exact run64_eq base hcount hfits

/-- A tree with the greatest and the least number of 64 bits, and with variables that no puzzle
declares. -/
def extreme : Expr :=
  .binary .sub
    (.binary .mul (.number (2 ^ 63 - 1) "9223372036854775807") (.number (-2 ^ 63) "8"))
    (.binary .add (.var "é" (.neighbor (-4))) (.var "all" .sumOfOthers))

/-- Under the hats 5, 7 and 3, person 0 gets `7 × (-8) - (3 + 10)`, which leaves 1 when divided
by ten. There is no person 3, and `é` is the first variable to say so. Without colours every
number counts as zero. -/
theorem evaluate_every_tree_extreme :
    (0 < [5, 7, (3 : Hat)].length ∧ extreme.evaluate 10 [5, 7, 3] 0 = .ok 1) ∧
      ([5, 7, (3 : Hat)].length ≤ 3 ∧ extreme.leftmostVariable? = some "é" ∧
        extreme.evaluate 10 [5, 7, 3] 3 = .error (.unresolvedVariable "é")) ∧
      ([5, 7, (3 : Hat)].length < (2 : Int) ^ 63 ∧ extreme.Fits64 [5, 7, 3] 0 ∧
        extreme.run64 0 [5, 7, 3] 0 = some (.ok 0)) := by
  obtain ⟨hvalue, -, -, -, -⟩ := evaluate_every_tree 10 [5, 7, 3] 0 extreme
  obtain ⟨-, herror, -, -, -⟩ := evaluate_every_tree 10 [5, 7, 3] 3 extreme
  obtain ⟨hnone, -, -, -, hrun⟩ := evaluate_every_tree 0 [5, 7, 3] 0 extreme
  have hperson : 0 < [5, 7, (3 : Hat)].length := by decide
  have hfits : extreme.Fits64 [5, 7, 3] 0 := by decide
  have hone : extreme.exact [5, 7, 3] 0 % Puzzle.modulus 10 = 1 := by decide
  have hzero : extreme.exact [5, 7, 3] 0 % Puzzle.modulus 0 = 0 := by decide
  refine ⟨⟨hperson, ?_⟩, ⟨by decide, by decide, herror (by decide) "é" (by decide)⟩,
    by decide, hfits, ?_⟩
  · rw [hvalue (.inl hperson), hone]
  · rw [hrun (by decide) hfits, hnone (.inl hperson), hzero]

end Expr

/-! ### Guesses -/

/-- The hats of the circle can be summed in 64 bits, and everybody is led to neighbours without
a number that is too large for them. -/
def Formula.InReach (formula : Formula) : Prop :=
  formula.puzzle.personCount ≤ 2 ^ 55 ∧ formula.tree.InReach formula.puzzle.personCount

instance (formula : Formula) : Decidable formula.InReach :=
  inferInstanceAs (Decidable (_ ∧ _))

/-- Under a hat for everybody, each person of the circle gets the guess in evaluation with 64-bit
numbers as well: no number on the way is too large, and none has wrapped around. -/
def Formula.Exact64 (formula : Formula) : Prop :=
  ∀ (hats : List Hat) (person : Nat), hats.length = formula.puzzle.personCount →
    person < formula.puzzle.personCount →
      formula.tree.run64 formula.puzzle.base hats person = some (.ok (formula.guess hats person))

theorem Formula.InReach.exact64 {formula : Formula} (h : formula.InReach) : formula.Exact64 := by
  intro hats person hlength hperson
  obtain ⟨hcount, htree⟩ := h
  rw [← hlength] at hcount htree
  have hplace : person < hats.length := hlength ▸ hperson
  rw [Expr.run64_eq _ (by omega) (htree.fits64 hcount hplace), Expr.evaluate_eq _ hplace,
    formula.guess_eq hlength hperson]

end HatCircle
