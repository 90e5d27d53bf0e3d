import Reckoner.Text

/-!
# Tokens

The kinds of tokens are the operators, the named functions and the other marks of the expression
language. Each kind has a `symbol`, which is how it is written, and a `name`, which is how it is
called in listings.

A token is a kind together with its text and its place. The text of a numeral is its value written
anew; that of any other token is the symbol of its kind or, for π, the digits of the constant.
-/

namespace Reckoner

/-- An operator. `plus`, `minus` and `flip` stand in front of one operand; all but `flip` stand
between two. -/
inductive Operator where
  | plus
  | minus
  | flip
  | times
  | divide
  | floorDivide
  | modulo
  | leftShift
  | rightShift
  | and
  | or
  | xor
  | power
  deriving DecidableEq, Repr

/-- A named function of one argument. -/
inductive Function where
  | abs
  | sqrt
  | exp
  | ln
  | log
  | sin
  | cos
  | tan
  | acos
  | acosh
  | asin
  | asinh
  | atan
  | atanh
  | cosh
  | sinh
  | tanh
  | ceil
  | floor
  | round
  deriving DecidableEq, Repr

/-- What a token is. -/
inductive Kind where
  /-- A numeral. -/
  | number
  /-- The constant π. -/
  | pi
  /-- An operator. -/
  | operator (o : Operator)
  /-- The name of a function. -/
  | function (f : Function)
  /-- An opening parenthesis. -/
  | leftParen
  /-- A closing parenthesis. -/
  | rightParen
  /-- The end of the text. -/
  | endOfInput
  deriving DecidableEq, Repr

/-- How an operator is written. -/
def Operator.symbol : Operator → String
  | .plus => "+"
  | .minus => "-"
  | .flip => "~"
  | .times => "*"
  | .divide => "/"
  | .floorDivide => "//"
  | .modulo => "%"
  | .leftShift => "<<"
  | .rightShift => ">>"
  | .and => "&"
  | .or => "|"
  | .xor => "^"
  | .power => "**"

/-- How an operator is called in listings. -/
def Operator.name : Operator → String
  | .plus => "PLUS"
  | .minus => "MINUS"
  | .flip => "FLIP"
  | .times => "MULTIPLY"
  | .divide => "DIVIDE"
  | .floorDivide => "FLOOR_DIVIDE"
  | .modulo => "MODULUS"
  | .leftShift => "LEFT_SHIFT"
  | .rightShift => "RIGHT_SHIFT"
  | .and => "AND"
  | .or => "OR"
  | .xor => "XOR"
  | .power => "POWER"

/-- How a function is written, up to letter case. -/
def Function.symbol : Function → String
  | .abs => "ABS"
  | .sqrt => "SQRT"
  | .exp => "EXP"
  | .ln => "LN"
  | .log => "LOG"
  | .sin => "SIN"
  | .cos => "COS"
  | .tan => "TAN"
  | .acos => "ACOS"
  | .acosh => "ACOSH"
  | .asin => "ASIN"
  | .asinh => "ASINH"
  | .atan => "ATAN"
  | .atanh => "ATANH"
  | .cosh => "COSH"
  | .sinh => "SINH"
  | .tanh => "TANH"
  | .ceil => "CEIL"
  | .floor => "FLOOR"
  | .round => "ROUND"

namespace Kind

/-- How a kind is written, up to letter case. Numerals and the end of a text have no one spelling;
their symbol only describes them. -/
def symbol : Kind → String
  | .number => "NUMBER"
  | .pi => "PI"
  | .operator o => o.symbol
  | .function f => f.symbol
  | .leftParen => "("
  | .rightParen => ")"
  | .endOfInput => "end of input"

/-- How a kind is called in listings. -/
def name : Kind → String
  | .number => "NUMBER"
  | .pi => "PI"
  | .operator o => o.name
  | .function f => f.symbol
  | .leftParen => "LEFT_PARENTHESIS"
  | .rightParen => "RIGHT_PARENTHESIS"
  | .endOfInput => "END_OF_INPUT"

/-- Whether a kind is the name of a function. -/
def isFunction : Kind → Bool
  | .function _ => true
  | _ => false

/-- The kinds with a fixed spelling. Longer spellings come first, so that the first kind whose
spelling begins a text has the longest such spelling. -/
def vocabulary : List Kind := [
  .function .floor, .function .round, .function .acosh, .function .asinh, .function .atanh,
  .function .sqrt, .function .acos, .function .asin, .function .atan, .function .cosh,
  .function .sinh, .function .tanh, .function .ceil,
  .function .abs, .function .exp, .function .log, .function .sin, .function .cos, .function .tan,
  .function .ln, .pi,
  .operator .power, .operator .floorDivide, .operator .leftShift, .operator .rightShift,
  .operator .plus, .operator .minus, .operator .flip, .operator .times, .operator .divide,
  .operator .modulo, .operator .and, .operator .or, .operator .xor, .leftParen, .rightParen]

end Kind

/-! ### Tokens with their places -/

/-- A token of an expression. -/
structure Token where
  /-- What the token is. -/
  kind : Kind
  /-- What the token says. -/
  text : String
  /-- Where the token stands. -/
  span : Span
  deriving DecidableEq, Repr

namespace Token

/-- The token that says the symbol of its kind. -/
def ofKind (kind : Kind) (span : Span) : Token :=
  ⟨kind, kind.symbol, span⟩

/-- The token that stands for the end of a text of `length` bytes. -/
def endOfInput (length : Nat) : Token :=
  ⟨.endOfInput, "", ⟨length, 0⟩⟩

/-- A token in a listing: the name of its kind and, if there is any, its text. -/
def listing (token : Token) : String :=
  if token.text.isEmpty then token.kind.name else token.kind.name ++ " " ++ token.text

/-- A token as an error message names it. -/
def description (token : Token) : String :=
  match token.kind with
  | .endOfInput => "end of input"
  | .number | .pi => s!"number `{token.text}`"
  | _ => s!"`{token.text}`"

end Token

end Reckoner
