import Reckoner.Expr.Basic
import Reckoner.Token.Scan

/-!
# Failures

Everything that can keep a text from having a value: no token can be read, the tokens form no
expression, or the expression has no value. Each failure says what happened (`message`), where
(`span`, with a `label`) and what to do about it (`help`).
-/

namespace Reckoner

/-- Why tokens form no expression. -/
inductive GrammarError where
  /-- Another kind of token was needed. -/
  | missingToken (expected : Kind) (found : Token)
  /-- An operand was needed. -/
  | missingOperand (found : Token)
  /-- Something follows an expression that is complete. -/
  | leftover (found : Token)
  /-- The expression is nested too deeply, or its tree is too high. -/
  | tooDeep (span : Span)
  deriving DecidableEq, Repr

/-- Why an expression has no value. -/
inductive EvalError where
  /-- A token that means nothing in a node of this form. -/
  | misapplied (token : Token) (shape : Shape)
  /-- An integer division by zero, at the place of its operator. -/
  | divisionByZero (span : Span)
  deriving DecidableEq, Repr

/-- Why a text has no value. -/
inductive Failure where
  /-- No token can be read. -/
  | lexical (error : LexicalError)
  /-- The tokens form no expression. -/
  | grammar (error : GrammarError)
  /-- The expression has no value. -/
  | value (error : EvalError)
  deriving DecidableEq, Repr

namespace LexicalError

/-- What happened. -/
def message (error : LexicalError) : String :=
  match error with
  | strayCharacter character offset =>
    s!"Unexpected character '{character}' at offset {offset}"
  | malformedNumeral span => s!"Malformed number literal: second '.' at offset {span.offset}"
  | halfOperator character offset =>
    s!"Incomplete operator '{character}' at offset {offset}"
  | unknownWord word offset => s!"Unknown identifier '{word}' at offset {offset}"

/-- What to do about it. -/
def help : LexicalError → String
  | strayCharacter character _ => s!"remove or correct the character: `{character}`"
  | malformedNumeral _ => "a number may contain at most one decimal point"
  | halfOperator character _ => s!"use `{character}{character}` for a shift"
  | unknownWord _ _ =>
    "known names are ABS, SQRT, EXP, LN, LOG, PI and the trigonometric functions"

/-- What to write beside the place. -/
def label : LexicalError → String
  | strayCharacter _ _ => "this character"
  | malformedNumeral _ => "second decimal point"
  | halfOperator _ _ => "expected a second character here"
  | unknownWord _ _ => "not a function or constant"

end LexicalError

namespace GrammarError

/-- The place that an error is about. -/
def span : GrammarError → Span
  | missingToken _ found => found.span
  | missingOperand found => found.span
  | leftover found => found.span
  | tooDeep span => span

/-- What happened. -/
def message (error : GrammarError) : String :=
  let offset := error.span.offset
  match error with
  | missingToken expected found =>
    s!"Expected `{expected.symbol}` but found {found.description} at offset {offset}"
  | missingOperand found =>
    s!"Expected a number, `(` or a function but found {found.description} at offset {offset}"
  | leftover found =>
    s!"Unexpected {found.description} after a complete expression at offset {offset}"
  | tooDeep _ => s!"Expression is nested too deeply at offset {offset}"

/-- What to do about it. -/
def help : GrammarError → String
  | missingToken expected _ => s!"use `{expected.symbol}` here instead"
  | missingOperand _ => "an operand is missing here"
  | leftover _ => "an operator may be missing, or a parenthesis is unbalanced"
  | tooDeep _ =>
    "split long operator chains or reduce the nesting of parentheses, functions and unary operators"

/-- What to write beside the place. -/
def label : GrammarError → String
  | missingToken _ _ => "here"
  | missingOperand _ => "here"
  | leftover _ => "expression ends before this"
  | tooDeep _ => "nesting limit reached here"

end GrammarError

namespace EvalError

/-- The place that an error is about. -/
def span : EvalError → Span
  | misapplied token _ => token.span
  | divisionByZero span => span

/-- What happened. -/
def message : EvalError → String
  | misapplied token shape => s!"Cannot apply `{token.text}` as {shape.description}"
  | divisionByZero _ => "Integer division by zero"

/-- What to do about it. -/
def help : EvalError → String
  | misapplied _ _ => "the parser and interpreter disagree about this token"
  | divisionByZero _ =>
    "`//` truncates both operands to integers; use `/` for floating-point division"

/-- What to write beside the place. -/
def label : EvalError → String
  | misapplied _ _ => "here"
  | divisionByZero _ => "divisor truncates to zero"

end EvalError

namespace Failure

/-- The place that a failure is about. -/
def span : Failure → Span
  | lexical error => error.span
  | grammar error => error.span
  | value error => error.span

/-- The number of bytes in front of the place, which failures to read a text give in their message
and failures to find a value do not. -/
def offset? : Failure → Option Nat
  | lexical error => some error.span.offset
  | grammar error => some error.span.offset
  | value _ => none

/-- What happened. -/
def message : Failure → String
  | lexical error => error.message
  | grammar error => error.message
  | value error => error.message

/-- What to do about it. -/
def help : Failure → String
  | lexical error => error.help
  | grammar error => error.help
  | value error => error.help

/-- What to write beside the place. -/
def label : Failure → String
  | lexical error => error.label
  | grammar error => error.label
  | value error => error.label

/-- The family of failures that a failure belongs to. -/
def family : Failure → String
  | lexical _ => "scan error"
  | grammar _ => "syntax error"
  | value (.misapplied _ _) => "interpretation error"
  | value (.divisionByZero _) => "arithmetic error"

end Failure

end Reckoner
