import Reckoner.Expr.Parse
import Reckoner.Expr.Value

/-!
# Calculating the value of a text

`calculate` reads a text, forms the expression and computes its value. It keeps a journal: each
token as it is read, the expression once it is complete, and the value once it is known.
-/

namespace Reckoner

/-- How important an event is. -/
inductive Severity where
  | trace
  | debug
  deriving DecidableEq, Repr

/-- Something that was done with a text. -/
inductive Event where
  /-- A token was read. -/
  | scanned (token : Token)
  /-- The text turned out to be an expression. -/
  | parsed (text : String) (expr : Expr)
  /-- The value of the expression was found. -/
  | evaluated (text : String) (value : Float)
  deriving DecidableEq, Repr

namespace Event

/-- How important an event is. -/
def severity : Event → Severity
  | scanned _ => .trace
  | parsed _ _ => .debug
  | evaluated _ _ => .debug

/-- What the journal says about an event. -/
def message : Event → String
  | scanned token => s!"scanned {token.listing}"
  | parsed text expr => s!"parsed `{text}` as {expr.render}"
  | evaluated text value => s!"evaluated `{text}` to {Number.text value}"

end Event

/-- What came of calculating the value of a text. -/
structure Calculation where
  /-- What was done, in its order. -/
  journal : List Event
  /-- The value of the text, or why it has none. -/
  result : Except Failure Float
  deriving Repr

/-- The expression that a text is. -/
def parse (text : String) : Parsing :=
  (Stream.ofText text).parse

/-- Reads a text as an expression and computes its value. -/
def calculate (text : String) : Calculation :=
  let parsing := parse text
  let scanned := parsing.read.map .scanned
  match parsing.result with
  | .error failure => ⟨scanned, .error failure⟩
  | .ok expr =>
    let parsed := scanned ++ [.parsed text expr]
    match expr.value with
    | .error error => ⟨parsed, .error (.value error)⟩
    | .ok value => ⟨parsed ++ [.evaluated text value], .ok value⟩

/-- The value of a text, or why it has none. -/
def valueOf (text : String) : Except Failure Float :=
  (calculate text).result

end Reckoner
