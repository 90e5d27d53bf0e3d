import Reckoner.Failure
import Reckoner.Text

/-!
# Outcomes of a run

What a run of the program leaves behind: its output, its notices and its exit code.
-/

namespace Reckoner

/-- Something that the program says beside its output. -/
inductive Notice where
  /-- The reason why the program stops. -/
  | headline (reason : String)
  /-- A failure to find the value of a text. -/
  | report (source : Source) (failure : Failure)
  /-- The way in which the program is to be called. -/
  | usage (text : String)
  deriving DecidableEq, Repr

namespace Notice

/-- The text of a headline. -/
def headline? : Notice → Option String
  | headline reason => some s!"Error: {reason}"
  | _ => none

/-- Whether a notice reports a failure. -/
def isReport : Notice → Bool
  | report _ _ => true
  | _ => false

/-- The text of a notice. -/
def render : Notice → String
  | headline reason => s!"Error: {reason}"
  | report source failure =>
    let span := failure.span
    let place := s!"{source.name}, bytes {span.offset} to {span.offset + span.length}"
    s!"  × {failure.message}\n    {place}: {failure.label}\n  help: {failure.help}"
  | usage text => text

end Notice

/-- What a run leaves behind. -/
structure Outcome where
  /-- What was written to the output. -/
  output : String
  /-- What was said beside the output, in its order. -/
  notices : List Notice
  /-- The exit code of the program. -/
  exitCode : Nat
  deriving DecidableEq, Repr

namespace Outcome

/-- The first notice, if it is a headline. -/
def headline? (outcome : Outcome) : Option String :=
  outcome.notices.head?.bind Notice.headline?

/-- The number of failures that were reported. -/
def reportCount (outcome : Outcome) : Nat :=
  outcome.notices.countP Notice.isReport

/-- A run that wrote and said something before. -/
def after (output : String) (notices : List Notice) (outcome : Outcome) : Outcome :=
  { outcome with output := output ++ outcome.output, notices := notices ++ outcome.notices }

/-- The exit code of a run that ends well. -/
def success : Nat := 0

/-- The exit code of a run that stops since the input cannot be read. -/
def unreadableInput : Nat := 1

/-- The exit code of a run with arguments that the program does not take. -/
def misuse : Nat := 2

/-- The exit code of a run that stops since a text has no value. -/
def failed : Nat := 65

/-- A run that writes something and ends well. -/
def ofOutput (output : String) : Outcome :=
  ⟨output, [], success⟩

/-- A run that stops after some output since a text has no value. -/
def ofFailure (output : String) (source : Source) (failure : Failure) : Outcome :=
  ⟨output, [.headline failure.family, .report source failure], failed⟩

end Outcome

end Reckoner
