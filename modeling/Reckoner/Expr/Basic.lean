import Reckoner.Token.Basic

/-!
# Expressions

An expression is a tree whose nodes hold the tokens that they were made from. Nothing keeps a token
out of a place where it makes no sense: whether a tree has a value is decided by `Expr.value`.
-/

namespace Reckoner

/-- An expression. -/
inductive Expr where
  /-- A number, given by the text of a token. -/
  | literal (token : Token)
  /-- An operator in front of its operand. -/
  | unary (operator : Token) (operand : Expr)
  /-- An operator between its operands. -/
  | binary (operator : Token) (left right : Expr)
  /-- A function of one argument. -/
  | application (function : Token) (argument : Expr)
  deriving DecidableEq, Repr

/-- The form of a node. -/
inductive Shape where
  | literal
  | unary
  | binary
  | application
  deriving DecidableEq, Repr

/-- The part that a node of some form gives to its token. -/
def Shape.description : Shape → String
  | .literal => "a numeric literal"
  | .unary => "a unary operator"
  | .binary => "a binary operator"
  | .application => "a function"

namespace Expr

/-- The token of the root. -/
def token : Expr → Token
  | literal token => token
  | unary operator _ => operator
  | binary operator _ _ => operator
  | application function _ => function

/-- The form of the root. -/
def shape : Expr → Shape
  | literal _ => .literal
  | unary _ _ => .unary
  | binary _ _ _ => .binary
  | application _ _ => .application

/-- The number of nodes above the lowest one on the longest path from the root. -/
def height : Expr → Nat
  | literal _ => 0
  | unary _ operand => operand.height + 1
  | binary _ left right => max left.height right.height + 1
  | application _ argument => argument.height + 1

/-- All nodes, each in front of its operands, by form and token. -/
def nodes : Expr → List (Shape × Token)
  | literal token => [(.literal, token)]
  | unary operator operand => (.unary, operator) :: operand.nodes
  | binary operator left right => (.binary, operator) :: (left.nodes ++ right.nodes)
  | application function argument => (.application, function) :: argument.nodes

/-- The text of an expression with the operator or function in front of its operands, and
parentheses around the three. -/
def render : Expr → String
  | literal token => token.text
  | unary operator operand => s!"({operator.text} {operand.render})"
  | binary operator left right => s!"({operator.text} {left.render} {right.render})"
  | application function argument => s!"({function.text} {argument.render})"

end Expr

end Reckoner
