import HatCircle.Formula.Token
import HatCircle.Formula.Rejection

/-!
# Groups in parentheses

Parentheses must pair up, and what a pair encloses must read like a formula at its
two ends. `scanGroups` goes through the text once with the places of the open
parentheses on a stack. When one closes, the text of its group is looked at with
each group inside it shrunk to a single placeholder (`topLevel`), so an inner
group counts as an operand of the outer one.
-/

namespace HatCircle

/-- What stands in for a group, or for a word, where only the rest matters. It is
no operator, no bracket and no digit. -/
def placeholder : Char := '#'

/-- The text from one place up to, but not including, another one. -/
def slice (text : List Char) (start stop : Nat) : List Char :=
  (text.take stop).drop start

/-- The text with each group shrunk to a placeholder, read inside `depth` groups. -/
def topLevelAt (depth : Nat) : List Char → List Char
  | [] => []
  | c :: rest =>
    if c = '(' then
      if depth = 0 then placeholder :: topLevelAt 1 rest else topLevelAt (depth + 1) rest
    else if c = ')' then topLevelAt (depth - 1) rest
    else if depth = 0 then c :: topLevelAt 0 rest
    else topLevelAt depth rest

/-- The text with each group shrunk to a placeholder. -/
def topLevel (text : List Char) : List Char :=
  topLevelAt 0 text

/-- Checks what a pair of parentheses encloses: it is not empty, not operators
alone, and has no operator at its ends. -/
def checkGroup (content : List Char) : Except Rejection Unit :=
  match content.head?, content.getLast? with
  | some first, some last =>
    if content.all isOperator then .error .operatorOnlyParentheses
    else if isOperator first then .error .leadingOperatorInParentheses
    else if isOperator last then .error .trailingOperatorInParentheses
    else .ok ()
  | _, _ => .error .emptyParentheses

/-- Checks the groups from a place of the text on; `opened` holds the places of the
parentheses that are still open there, the innermost one first. -/
def scanGroups (text : List Char) (opened : List Nat) (place : Nat) :
    List Char → Except Rejection Unit
  | [] => if opened.isEmpty then .ok () else .error .unbalancedParentheses
  | c :: rest =>
    if c = '(' then scanGroups text (place :: opened) (place + 1) rest
    else if c = ')' then
      match opened with
      | [] => .error .unbalancedParentheses
      | start :: outer => do
        checkGroup (topLevel (slice text (start + 1) place))
        scanGroups text outer (place + 1) rest
    else scanGroups text opened (place + 1) rest

def checkParentheses (text : List Char) : Except Rejection Unit :=
  scanGroups text [] 0 text

end HatCircle
