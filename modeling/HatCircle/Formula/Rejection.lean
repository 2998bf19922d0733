import HatCircle.Error

/-!
# Why a text is no formula

The reasons for which a text is rejected, each with a category, a wording and a
report. The texts inside a reason quote the rejected text.
-/

namespace HatCircle

inductive Rejection where
  | empty
  | unbalancedParentheses
  | emptyParentheses
  | operatorOnlyParentheses
  | leadingOperatorInParentheses
  | trailingOperatorInParentheses
  | invalidCharacters (found : String)
  | malformedBracket (fragment : String)
  | invalidBracketContent (content : String)
  | noOperand
  | tooManyTokens (count limit : Nat)
  | leadingOperator
  | trailingOperator
  | consecutiveOperators (first second : String)
  | missingOperator (left right : String)
  | danglingOperator (operator : String)
deriving DecidableEq, Repr

namespace Rejection

def category : Rejection → String
  | .empty => "empty"
  | .unbalancedParentheses => "unbalanced-parentheses"
  | .emptyParentheses => "empty-parentheses"
  | .operatorOnlyParentheses => "operator-only-parentheses"
  | .leadingOperatorInParentheses => "leading-operator-in-parentheses"
  | .trailingOperatorInParentheses => "trailing-operator-in-parentheses"
  | .invalidCharacters _ => "invalid-characters"
  | .malformedBracket _ => "malformed-bracket"
  | .invalidBracketContent _ => "invalid-bracket-content"
  | .noOperand => "no-operand"
  | .tooManyTokens .. => "too-many-tokens"
  | .leadingOperator => "leading-operator"
  | .trailingOperator => "trailing-operator"
  | .consecutiveOperators .. => "consecutive-operators"
  | .missingOperator .. => "missing-operator"
  | .danglingOperator _ => "dangling-operator"

def message : Rejection → String
  | .empty => "formula is empty"
  | .unbalancedParentheses => "unmatched parenthesis"
  | .emptyParentheses => "empty parentheses"
  | .operatorOnlyParentheses => "parentheses contain only operators"
  | .leadingOperatorInParentheses => "parentheses cannot start with an operator"
  | .trailingOperatorInParentheses => "parentheses cannot end with an operator"
  | .invalidCharacters found => "invalid characters: " ++ found
  | .malformedBracket fragment => "malformed bracket near `" ++ fragment ++ "`"
  | .invalidBracketContent content =>
    "invalid bracket content `" ++ content ++ "`: expected a single digit from 1 to 9"
  | .noOperand => "formula needs at least one number or variable"
  | .tooManyTokens count limit =>
    "too many tokens: " ++ Numeral.render count ++ " (maximum " ++ Numeral.render limit ++ ")"
  | .leadingOperator => "formula must start with a number or variable"
  | .trailingOperator => "formula must end with a number or variable"
  | .consecutiveOperators first second =>
    "two operators in a row: `" ++ first ++ "` followed by `" ++ second ++ "`"
  | .missingOperator left right =>
    "missing operator between `" ++ left ++ "` and `" ++ right ++ "`"
  | .danglingOperator operator =>
    "operator `" ++ operator ++ "` needs a number or variable on both sides"

def toError (rejection : Rejection) : Error :=
  ⟨.formula, .new rejection.category rejection.message⟩

end Rejection

end HatCircle
