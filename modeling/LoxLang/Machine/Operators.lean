import LoxLang.Decimal.Layout
import LoxLang.Machine.Fault
import LoxLang.Value

/-!
# Operators

What the operators of the language do with values.  Arithmetic is that of floating
point numbers, so dividing by zero gives an infinity or no number at all and is not a
fault.  Adding joins texts, and writes a number out when the other operand is a text.

## Main definitions

* `applyUnary` — an operator before its operand.
* `applyBinary` — an operator between its operands.
* `quotient` — division of values that count as numbers.

## References

The reference's `divide`, and `visit_unary_expr` and `visit_binary_expr` of its
`Evaluator`.
-/

namespace LoxLang

/-- A fault of a program at a token. -/
def Fault.at (cause : RuntimeCause) (token : Token) : Fault := .runtime { cause, token }

/-- Applies the operator before an operand. -/
def applyUnary (operator : Token) (v : Value) : Except Fault Value :=
  if operator.kind = .bang then
    .ok (.bool !v.truthy)
  else
    match v with
    | .number x => .ok (.number (-x))
    | _ => .error (.at .operandNotNumber operator)

/-- Adds numbers and joins texts. -/
def addValues (operator : Token) : Value → Value → Except Fault Value
  | .number x, .number y => .ok (.number (x + y))
  | .text s, .text t => .ok (.text (s ++ t))
  | .text s, .number y => .ok (.text (s ++ numberText y))
  | .number x, .text t => .ok (.text (numberText x ++ t))
  | _, _ => .error (.at .operandsNotAddable operator)

/-- The number that a value counts as: a truth value counts as one or zero. -/
def Value.quantity? : Value → Option Float
  | .number x => some x
  | .bool b => some (if b then 1 else 0)
  | _ => none

/-- Why two values have no quotient. -/
inductive QuotientFault where
  /-- One of them does not count as a number. -/
  | notNumbers (dividend divisor : Value)
  /-- The divisor is zero, and the dividend does not count as a number. -/
  | notNumberByZero (dividend : Value)
  deriving DecidableEq, Repr

/-- The quotient of two values that count as numbers. -/
def quotient (v w : Value) : Except QuotientFault Float :=
  match v.quantity?, w.quantity? with
  | some x, some y => .ok (x / y)
  | none, some y => .error (if y == 0 then .notNumberByZero v else .notNumbers v w)
  | _, none => .error (.notNumbers v w)

/-- Applies an operator between numbers. -/
def applyNumeric (operator : Token) (x y : Float) : Except Fault Value :=
  match operator.kind with
  | .greater => .ok (.bool (x > y))
  | .greaterEqual => .ok (.bool (x ≥ y))
  | .less => .ok (.bool (x < y))
  | .lessEqual => .ok (.bool (x ≤ y))
  | .minus => .ok (.number (x - y))
  | .star => .ok (.number (x * y))
  | .slash => .ok (.number (x / y))
  | kind => .error (.notAnOperator kind)

/-- Applies the operator between two operands. -/
def applyBinary (operator : Token) (v w : Value) : Except Fault Value :=
  match operator.kind with
  | .comma => .ok w
  | .equalEqual => .ok (.bool (v.same w))
  | .bangEqual => .ok (.bool !v.same w)
  | .plus => addValues operator v w
  | _ =>
      match v, w with
      | .number x, .number y => applyNumeric operator x y
      | _, _ => .error (.at .operandsNotNumbers operator)

end LoxLang
