import HatCircle.Proofs.Meaning

/-!
# Regrouping trees

The text of a tree leaves out the parentheses around a right operand that binds as strongly
as its operator, unless the operator is a subtraction: `1 + (2 - 3)` is written like
`(1 + 2) - 3`. Both trees have the same tokens, the same text and the same value, but only
the second one is read from that text.

`Expr.regroup` turns every tree into the one that is read from its text: in that tree, only
subtractions have right operands that bind as strongly as they do (`leftAssociated_regroup`).
Operands are hung in one at a time (`Expr.attach`), and each property of regrouping comes
from the same property of this step.
-/

namespace HatCircle

/-! ### Operators that may be regrouped -/

/-- Is `x op (y next z)` written without parentheses although `next` binds no stronger than
`op`? -/
def Operator.chains (op next : Operator) : Bool :=
  next.precedence == op.precedence && op != .sub

namespace Operator

variable {op next : Operator}

theorem chains_iff : op.chains next = true ↔ next.precedence = op.precedence ∧ op ≠ .sub := by
  simp [chains]

theorem exact_exact (h : op.chains next = true) (x y z : Int) :
    next.exact (op.exact x y) z = op.exact x (next.exact y z) := by
  obtain ⟨hprecedence, hsub⟩ := chains_iff.1 h
  cases op with
  | add =>
      cases next with
      | add => exact Int.add_assoc x y z
      | sub => exact Int.add_sub_assoc x y z
      | mul => cases hprecedence
  | sub => exact absurd rfl hsub
  | mul =>
      cases next with
      | add => cases hprecedence
      | sub => cases hprecedence
      | mul => exact Int.mul_assoc x y z

end Operator

namespace Expr

/-! ### Tokens and shapes -/

/-- The tokens of a tree from left to right. -/
def tokens : Expr → List Token
  | .number _ literal => [.number literal]
  | .var name _ => [.variable name]
  | .binary op lhs rhs => lhs.tokens ++ .operator op :: rhs.tokens

/-- Only subtractions have right operands that bind as strongly as they do. -/
def LeftAssociated : Expr → Prop
  | .number _ _ => True
  | .var _ _ => True
  | .binary op lhs rhs => lhs.LeftAssociated ∧ rhs.LeftAssociated ∧
    (rhs.precedence? = some op.precedence → op = .sub)

/-- The numbers of the tree are written in digits of the puzzle and are the remainders of
what is written, and its variables are declared by the puzzle. -/
def Admitted (puzzle : Puzzle) : Expr → Prop
  | .number value literal => puzzle.IsNumber literal.toList ∧
    value = Numeral.value literal.toList % Puzzle.modulus puzzle.base
  | .var name rule => puzzle.Declares name rule
  | .binary _ lhs rhs => lhs.Admitted puzzle ∧ rhs.Admitted puzzle

theorem precedence?_binary (op : Operator) (lhs rhs : Expr) :
    (binary op lhs rhs).precedence? = some op.precedence := rfl

/-- Where an operator chains with the next one, a right operand of the one is written as a
left operand of the other. -/
theorem wrapsRight_eq_wrapsLeft {op next : Operator} (h : op.chains next = true)
    (operand : Expr) : operand.wrapsRight op = operand.wrapsLeft next := by
  obtain ⟨hprecedence, hsub⟩ := Operator.chains_iff.1 h
  simp [wrapsRight, wrapsLeft, hprecedence, beq_eq_false_iff_ne.2 hsub]

/-- The text of an operation depends on its operands only through their precedence and
their texts. -/
theorem render_binary_congr (op : Operator) {lhs lhs' rhs rhs' : Expr}
    (hleft : lhs.precedence? = lhs'.precedence?) (hlhs : lhs.render = lhs'.render)
    (hright : rhs.precedence? = rhs'.precedence?) (hrhs : rhs.render = rhs'.render) :
    (binary op lhs rhs).render = (binary op lhs' rhs').render := by
  simp only [render, wrapsLeft, wrapsRight, hleft, hlhs, hright, hrhs]

/-! ### One operand -/

/-- The tree that is read from the text of `lhs op rhs` if those of the operands are read
from theirs. -/
def attach (lhs : Expr) (op : Operator) : Expr → Expr
  | .number value literal => .binary op lhs (.number value literal)
  | .var name rule => .binary op lhs (.var name rule)
  | .binary next first second =>
    if op.chains next then .binary next (attach lhs op first) second
    else .binary op lhs (.binary next first second)

section Attach

variable {puzzle : Puzzle} (lhs : Expr) (op : Operator) (rhs : Expr)

/-- Hanging in an operand makes a tree of the same strength. -/
theorem precedence?_attach : (attach lhs op rhs).precedence? = some op.precedence := by
  cases rhs with
  | number value literal => rfl
  | var name rule => rfl
  | binary next first second =>
      rw [attach]
      split
      · rename_i hchains
        rw [precedence?_binary, (Operator.chains_iff.1 hchains).1]
      · rfl

theorem exact_attach (hats : List Hat) (person : Nat) :
    (attach lhs op rhs).exact hats person = (binary op lhs rhs).exact hats person := by
  induction rhs with
  | number value literal => rfl
  | var name rule => rfl
  | binary next first second ihf _ =>
      rw [attach]
      split
      · rename_i hchains
        rw [exact, ihf]
        exact Operator.exact_exact hchains _ _ _
      · rfl

theorem tokens_attach : (attach lhs op rhs).tokens = (binary op lhs rhs).tokens := by
  induction rhs with
  | number value literal => rfl
  | var name rule => rfl
  | binary next first second ihf _ =>
      rw [attach]
      split
      · rw [tokens, ihf]
        simp only [tokens, List.append_assoc, List.cons_append]
      · rfl

theorem render_attach : (attach lhs op rhs).render = (binary op lhs rhs).render := by
  induction rhs with
  | number value literal => rfl
  | var name rule => rfl
  | binary next first second ihf _ =>
      rw [attach]
      split
      · rename_i hchains
        obtain ⟨hprecedence, hsub⟩ := Operator.chains_iff.1 hchains
        have hleft : (attach lhs op first).wrapsLeft next = false := by
          simp [wrapsLeft, precedence?_attach, hprecedence]
        have hright : (binary next first second).wrapsRight op = false := by
          simp [wrapsRight, precedence?_binary, hprecedence, hsub]
        have hfirst := wrapsRight_eq_wrapsLeft hchains first
        rw [render, hleft, ihf]
        simp only [render, hright, hfirst, parenthesize, Bool.false_eq_true, if_false,
          String.append_assoc]
      · rfl

variable {lhs op rhs}

theorem LeftAssociated.attach (hlhs : lhs.LeftAssociated) (hrhs : rhs.LeftAssociated) :
    (attach lhs op rhs).LeftAssociated := by
  induction rhs with
  | number value literal => exact ⟨hlhs, trivial, nofun⟩
  | var name rule => exact ⟨hlhs, trivial, nofun⟩
  | binary next first second ihf _ =>
      rw [Expr.attach]
      split
      · exact ⟨ihf hrhs.1, hrhs.2⟩
      · rename_i hchains
        refine ⟨hlhs, hrhs, fun hprecedence => ?_⟩
        by_contra hsub
        exact hchains (Operator.chains_iff.2 ⟨Option.some.inj hprecedence, hsub⟩)

theorem Admitted.attach (hlhs : lhs.Admitted puzzle) (hrhs : rhs.Admitted puzzle) :
    (attach lhs op rhs).Admitted puzzle := by
  induction rhs with
  | number value literal => exact ⟨hlhs, hrhs⟩
  | var name rule => exact ⟨hlhs, hrhs⟩
  | binary next first second ihf _ =>
      rw [Expr.attach]
      split
      · exact ⟨ihf hrhs.1, hrhs.2⟩
      · exact ⟨hlhs, hrhs⟩

end Attach

/-! ### Whole trees -/

/-- The tree that is read from the text of a tree. -/
def regroup : Expr → Expr
  | .number value literal => .number value literal
  | .var name rule => .var name rule
  | .binary op lhs rhs => attach lhs.regroup op rhs.regroup

section Regroup

variable (tree : Expr)

theorem precedence?_regroup : tree.regroup.precedence? = tree.precedence? := by
  cases tree with
  | number value literal => rfl
  | var name rule => rfl
  | binary op lhs rhs => exact precedence?_attach ..

theorem exact_regroup (hats : List Hat) (person : Nat) :
    tree.regroup.exact hats person = tree.exact hats person := by
  induction tree with
  | number value literal => rfl
  | var name rule => rfl
  | binary op lhs rhs ihl ihr => rw [regroup, exact_attach, exact, ihl, ihr, exact]

theorem tokens_regroup : tree.regroup.tokens = tree.tokens := by
  induction tree with
  | number value literal => rfl
  | var name rule => rfl
  | binary op lhs rhs ihl ihr => rw [regroup, tokens_attach, tokens, ihl, ihr, tokens]

theorem render_regroup : tree.regroup.render = tree.render := by
  induction tree with
  | number value literal => rfl
  | var name rule => rfl
  | binary op lhs rhs ihl ihr =>
      rw [regroup, render_attach]
      exact render_binary_congr op lhs.precedence?_regroup ihl rhs.precedence?_regroup ihr

theorem leftAssociated_regroup : tree.regroup.LeftAssociated := by
  induction tree with
  | number value literal => trivial
  | var name rule => trivial
  | binary op lhs rhs ihl ihr => exact ihl.attach ihr

theorem Admitted.regroup {puzzle : Puzzle} {tree : Expr} (h : tree.Admitted puzzle) :
    tree.regroup.Admitted puzzle := by
  induction tree with
  | number value literal => exact h
  | var name rule => exact h
  | binary op lhs rhs ihl ihr => exact (ihl h.1).attach (ihr h.2)

end Regroup

end Expr

end HatCircle
