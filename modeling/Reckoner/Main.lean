import Reckoner.CommandLine

/-!
# The program

Reads the arguments and the input, and writes the outcome. A session is answered line by line, so
that it can be used from a terminal.
-/

namespace Reckoner.Program

/-- Writes notices to standard error. -/
def writeNotices (notices : List Notice) : IO Unit :=
  notices.forM fun notice => IO.eprintln notice.render

/-- Writes the outcome of a run and gives its exit code. -/
def writeOutcome (outcome : Outcome) : IO UInt32 := do
  IO.print outcome.output
  (← IO.getStdout).flush
  writeNotices outcome.notices
  return outcome.exitCode.toUInt32

/-- Reads bytes up to and including the next newline, or up to the end of the input. -/
partial def readLine (input : IO.FS.Stream) (seen : ByteArray) : IO ByteArray := do
  let bytes ← input.read 1
  if bytes.isEmpty then return seen
  let seen := seen ++ bytes
  if bytes[0]? == some newline then return seen else readLine input seen

/-- Answers the lines of the input until it ends or the session stops. -/
partial def converse (session : Session) (input : IO.FS.Stream) : IO UInt32 := do
  IO.print session.prompt
  (← IO.getStdout).flush
  match lines (← readLine input .empty).toList with
  | [] =>
    IO.print "\n"
    return Outcome.success.toUInt32
  | line :: _ =>
    match session.react (.ofLine line) with
    | .continue output notices =>
      IO.print output
      writeNotices notices
      converse session input
    | .stop outcome => writeOutcome outcome

/-- Does what the arguments ask for. -/
def start (arguments : List String) : IO UInt32 := do
  match CommandLine.standard.invocation arguments with
  | .command (.repl session) => converse session (← IO.getStdin)
  | _ => writeOutcome (run arguments [])

end Reckoner.Program

/-- Runs the program. -/
def main (arguments : List String) : IO UInt32 :=
  Reckoner.Program.start arguments
