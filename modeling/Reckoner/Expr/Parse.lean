import Reckoner.Failure
import Reckoner.Token.Stream

/-!
# Expressions from tokens

The grammar, from the loosest to the tightest binding:

* chains of binary operators, one `Level` after another, each grouping to the left;
* a *factor*, which is a sign (`+`, `-` or `~`) in front of a factor, or a power;
* a *power*, which is an atom, followed or not by `**` and a factor;
* an *atom*, which is a numeral, π, an expression in parentheses, or a function applied to one.

A tree may have a height of `limit`, and a factor may stand inside `limit - 1` others. The first
limit ends every chain of operators, the second every descent: `factor` is recursive in the number
of factors that may still be opened.

Readers take tokens from a `Supply`. What is parsed is on a `Tape`, which keeps the tokens that have
been read.
-/

namespace Reckoner

/-- A class of binary operators that bind equally tightly. -/
inductive Level where
  | or
  | xor
  | and
  | shift
  | sum
  | product
  deriving DecidableEq, Repr

namespace Level

/-- All levels, from the loosest to the tightest. -/
def all : List Level := [.or, .xor, .and, .shift, .sum, .product]

/-- The operators of a level. -/
def operators : Level → List Operator
  | or => [.or]
  | xor => [.xor]
  | and => [.and]
  | shift => [.leftShift, .rightShift]
  | sum => [.plus, .minus]
  | product => [.times, .divide, .modulo, .floorDivide]

/-- Whether a kind of token is an operator of a level. -/
def holds (level : Level) : Kind → Bool
  | .operator o => level.operators.contains o
  | _ => false

end Level

/-- Whether a kind of token is an operator that may stand in front of a factor. -/
def Kind.isSign : Kind → Bool
  | .operator .plus | .operator .minus | .operator .flip => true
  | _ => false

/-- Whether a kind of token is an operand by itself. -/
def Kind.isLiteral : Kind → Bool
  | .number | .pi => true
  | _ => false

/-- A tree together with its height. -/
structure Node where
  /-- The tree. -/
  expr : Expr
  /-- The height of the tree. -/
  height : Nat
  deriving DecidableEq, Repr

namespace Node

/-- A leaf. -/
def literal (token : Token) : Node :=
  ⟨.literal token, 0⟩

/-- A sign in front of an operand. -/
def unary (operator : Token) (operand : Node) : Node :=
  ⟨.unary operator operand.expr, operand.height + 1⟩

/-- An operator between two operands. -/
def binary (operator : Token) (left right : Node) : Node :=
  ⟨.binary operator left.expr right.expr, max left.height right.height + 1⟩

/-- A function applied to an argument. -/
def application (function : Token) (argument : Node) : Node :=
  ⟨.application function argument.expr, argument.height + 1⟩

end Node

/-- Something that tokens are read from, one after another. -/
class Supply (σ : Type) where
  /-- The token that comes next, or the reason why none can be read. -/
  head : σ → Except LexicalError Token
  /-- What is left without the next token. -/
  tail : σ → σ

instance : Supply Stream := ⟨Stream.head, Stream.tail⟩

instance : Supply Tape := ⟨fun tape => tape.rest.head, Tape.tail⟩

/-- Reading from a supply of tokens. A failure leaves it as far as it had been read. -/
abbrev Parse (σ α : Type) := EStateM Failure σ α

namespace Parse

variable {σ α : Type}

/-- Fails at a place where a limit is passed. -/
def tooDeep (span : Span) : Parse σ α :=
  throw (.grammar (.tooDeep span))

/-- A node that is not too high. -/
def checked (limit : Nat) (node : Node) : Parse σ Node :=
  if node.height ≤ limit then return node else tooDeep node.expr.token.span

variable [Supply σ]

/-- The token that comes next. -/
def peek : Parse σ Token := fun supply =>
  match Supply.head supply with
  | .ok token => .ok token supply
  | .error error => .error (.lexical error) supply

/-- Takes the next token away, and makes sure that the one behind it can be read. -/
def advance : Parse σ Unit := do
  modify Supply.tail
  discard peek

/-- Takes away a token of the given kind. -/
def expect (kind : Kind) : Parse σ Unit := do
  let token ← peek
  if token.kind = kind then advance
  else throw (.grammar (.missingToken kind token))

/-- Operands behind operators of a level, after the operand `left`. Every operator makes the tree
one higher at least, so that the limit on the height ends the chain. -/
def chain (limit : Nat) (level : Level) (operand : Parse σ Node) (left : Node) : Parse σ Node := do
  let token ← peek
  if level.holds token.kind then
    advance
    let right ← operand
    if _ : (Node.binary token left right).height ≤ limit then
      chain limit level operand (.binary token left right)
    else tooDeep token.span
  else return left
termination_by limit - left.height
decreasing_by simp only [Node.binary] at *; omega

/-- An expression, given how to read a factor. -/
def expression (limit : Nat) (factor : Parse σ Node) : Parse σ Node :=
  Level.all.foldr (fun level operand => do chain limit level operand (← operand)) factor

/-- An atom, given how to read a factor inside it. -/
def atom (limit : Nat) (inner : Parse σ Node) : Parse σ Node := do
  let token ← peek
  if token.kind.isFunction then
    advance
    expect .leftParen
    let argument ← expression limit inner
    expect .rightParen
    checked limit (.application token argument)
  else if token.kind = .leftParen then
    advance
    let node ← expression limit inner
    expect .rightParen
    return node
  else if token.kind.isLiteral then
    advance
    return .literal token
  else throw (.grammar (.missingOperand token))

/-- A power, given how to read a factor inside it. -/
def power (limit : Nat) (inner : Parse σ Node) : Parse σ Node := do
  let base ← atom limit inner
  let token ← peek
  if token.kind = .operator .power then
    advance
    let exponent ← inner
    checked limit (.binary token base exponent)
  else return base

/-- A sign in front of a factor, or a power, given how to read a factor inside it. -/
def signed (limit : Nat) (inner : Parse σ Node) : Parse σ Node := do
  let token ← peek
  if token.kind.isSign then
    advance
    let operand ← inner
    checked limit (.unary token operand)
  else power limit inner

/-- A factor that may hold `depth - 1` others inside one another. -/
def factor (limit : Nat) : (depth : Nat) → Parse σ Node
  | 0 => do tooDeep (← peek).span
  | depth + 1 => signed limit (factor limit depth)

/-- An expression up to the end of the text. -/
def whole (limit : Nat) : Parse σ Expr := do
  let node ← expression limit (factor limit limit)
  let token ← peek
  if token.kind = .endOfInput then return node.expr
  else throw (.grammar (.leftover token))

end Parse

/-- How deeply factors may be nested, and how high a tree may be. -/
def depthLimit : Nat := 256

/-- What came of reading an expression. -/
structure Parsing where
  /-- The tokens that were read, in their order. -/
  read : List Token
  /-- The expression, or why there is none. -/
  result : Except Failure Expr
  deriving Repr

namespace Stream

/-- The expression that the tokens of a stream form. -/
def parse (stream : Stream) : Parsing :=
  match Parse.whole depthLimit (Tape.start stream) with
  | .ok expr tape => ⟨tape.read, .ok expr⟩
  | .error failure tape => ⟨tape.read, .error failure⟩

end Stream

end Reckoner
