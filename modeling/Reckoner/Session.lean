import Reckoner.Calculation
import Reckoner.Outcome
import Reckoner.Text

/-!
# Sessions

A session reads line after line and answers each with its value. A prompt is written before a line
is read, also in front of the end of the input, which is marked by a newline. Blank lines are passed
over. A line without a value is reported, and the session goes on or stops, as it is told to.
-/

namespace Reckoner

/-- What there is to say about a line. -/
inductive Answer where
  /-- There is nothing on the line. -/
  | blank
  /-- The line is no text in UTF-8. -/
  | unreadable
  /-- The line has a value. -/
  | value (x : Float)
  /-- The line has no value. -/
  | noValue (source : Source) (failure : Failure)
  deriving DecidableEq, Repr

/-- The name of the input of a session. -/
def sessionSource : String := "<stdin>"

/-- What there is to say about a line, which is given in bytes. -/
def Answer.ofLine (line : List UInt8) : Answer :=
  match String.fromUTF8? ⟨line.toArray⟩ with
  | none => .unreadable
  | some text =>
    if text.toList.all isBlank then .blank
    else
      match valueOf text with
      | .ok x => .value x
      | .error failure => .noValue ⟨some sessionSource, text⟩ failure

/-- A session. -/
structure Session where
  /-- What is written before a line is read. -/
  prompt : String
  /-- Whether the session stops at a line without a value. -/
  exitOnError : Bool
  deriving DecidableEq, Repr

namespace Session

/-- A session that goes on after failures, with the prompt that is used unless another one is
asked for. -/
def standard : Session :=
  ⟨"calc> ", false⟩

/-- What becomes of a session at a line: the session goes on after some output and some notices, or
it ends. -/
inductive Reaction where
  | continue (output : String) (notices : List Notice)
  | stop (outcome : Outcome)
  deriving DecidableEq, Repr

/-- What becomes of a session at a line with the given answer. -/
def react (session : Session) : Answer → Reaction
  | .blank => .continue "" []
  | .value x => .continue (Number.text x ++ "\n") []
  | .noValue source failure =>
    if session.exitOnError then .stop (.ofFailure "" source failure)
    else .continue "" [.report source failure]
  | .unreadable => .stop ⟨"", [.headline "  × reading from stdin failed"], Outcome.unreadableInput⟩

/-- A session over lines. -/
def run (session : Session) : List (List UInt8) → Outcome
  | [] => .ofOutput (session.prompt ++ "\n")
  | line :: rest =>
    match session.react (.ofLine line) with
    | .continue output notices => (session.run rest).after (session.prompt ++ output) notices
    | .stop outcome => outcome.after session.prompt []

end Session

end Reckoner
