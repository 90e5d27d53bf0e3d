import Reckoner.Failure
import Reckoner.Number

/-!
# Values of expressions

`Expr.value` computes the value of any expression. Operands come before the node that they belong
to, the left one before the right one, and the first error in this order is the result.
-/

namespace Reckoner

/-- What an operator computes from one operand, if it stands in front of operands. -/
def Operator.unary? : Operator → Option (Float → Float)
  | .plus => some id
  | .minus => some fun x => -x
  | .flip => some fun x => Number.ofWord (~~~Number.toWord x)
  | _ => none

/-- An operation on words as an operation on floats. -/
def onWords (operation : Int32 → Int32 → Int32) (x y : Float) : Float :=
  Number.ofWord (operation (Number.toWord x) (Number.toWord y))

/-- What an operator computes from two operands, if it stands between operands. Integer division
has no value (`none`) when its divisor is zero as a word. -/
def Operator.binary? : Operator → Option (Float → Float → Option Float)
  | .plus => some fun x y => some (x + y)
  | .minus => some fun x y => some (x - y)
  | .times => some fun x y => some (x * y)
  | .divide => some fun x y => some (x / y)
  | .modulo => some fun x y => some (Number.remainder x y)
  | .power => some fun x y => some (x.pow y)
  | .floorDivide => some fun x y =>
    if Number.toWord y = 0 then none else some (onWords (· / ·) x y)
  | .and => some fun x y => some (onWords (· &&& ·) x y)
  | .or => some fun x y => some (onWords (· ||| ·) x y)
  | .xor => some fun x y => some (onWords (· ^^^ ·) x y)
  | .leftShift => some fun x y => some (onWords (· <<< ·) x y)
  | .rightShift => some fun x y => some (onWords (· >>> ·) x y)
  | .flip => none

/-- The operator that a kind of token is. -/
def Kind.operator? : Kind → Option Operator
  | .operator o => some o
  | _ => none

/-- The function that a kind of token names. -/
def Kind.function? : Kind → Option Function
  | .function f => some f
  | _ => none

namespace Token

/-- The value of a literal with the given token. Only the text of the token counts. -/
def literalValue (token : Token) : Except EvalError Float :=
  match Number.read? token.text with
  | some x => .ok x
  | none => .error (.misapplied token .literal)

/-- The value of the given token in front of an operand. -/
def unaryValue (token : Token) (x : Float) : Except EvalError Float :=
  match token.kind.operator?.bind Operator.unary? with
  | some operation => .ok (operation x)
  | none => .error (.misapplied token .unary)

/-- The value of the given token between two operands. -/
def binaryValue (token : Token) (x y : Float) : Except EvalError Float :=
  match token.kind.operator?.bind Operator.binary? with
  | none => .error (.misapplied token .binary)
  | some operation =>
    match operation x y with
    | some value => .ok value
    | none => .error (.divisionByZero token.span)

/-- The value of the given token applied to an argument. -/
def applicationValue (token : Token) (x : Float) : Except EvalError Float :=
  match token.kind.function? with
  | some function => .ok (function.apply x)
  | none => .error (.misapplied token .application)

end Token

/-- The value of an expression, or the first error on the way to it. -/
def Expr.value : Expr → Except EvalError Float
  | literal token => token.literalValue
  | unary operator operand => do
    let x ← operand.value
    operator.unaryValue x
  | binary operator left right => do
    let x ← left.value
    let y ← right.value
    operator.binaryValue x y
  | application function argument => do
    let x ← argument.value
    function.applicationValue x

end Reckoner
