import Reckoner.Session

/-!
# The command line

A `CommandLine` says what a list of arguments asks for, and has the texts about the program that
arguments can ask for. `CommandLine.run` does what is asked for, in the same way for all of them.

The program is run with `CommandLine.standard`, for which `Invocation.ofArguments` says what
arguments ask for. An argument that begins with a minus sign and is more than that sign is an
option, unless an argument `--` stands in front of it.
-/

namespace Reckoner

/-- Something that the program can do. -/
inductive Command where
  /-- Answer the input line by line. -/
  | repl (session : Session)
  /-- Write the value of an expression. -/
  | eval (expression : String)
  /-- Write the tokens of an expression, one on a line. -/
  | tokenize (expression : String)
  /-- Write the tree of an expression. -/
  | parse (expression : String)
  deriving DecidableEq, Repr

namespace Command

/-- The name of an expression that is given as an argument. -/
def argumentSource (expression : String) : Source :=
  ⟨some "<argument>", expression⟩

/-- Text with a newline behind it. -/
def line (text : String) : String :=
  text ++ "\n"

/-- What comes of a command, given the bytes of the input. -/
def run (input : List UInt8) : Command → Outcome
  | repl session => session.run (lines input)
  | eval expression =>
    match valueOf expression with
    | .ok x => .ofOutput (line (Number.text x))
    | .error failure => .ofFailure "" (argumentSource expression) failure
  | tokenize expression =>
    let stream := Stream.ofText expression
    let output := String.join (stream.listing.map fun token => line token.listing)
    match stream.failure? with
    | none => .ofOutput output
    | some error => .ofFailure output (argumentSource expression) (.lexical error)
  | parse expression =>
    match (Reckoner.parse expression).result with
    | .ok expr => .ofOutput (line expr.render)
    | .error failure => .ofFailure "" (argumentSource expression) failure

end Command

/-- What the arguments of the program ask for. -/
inductive Invocation where
  /-- A command. -/
  | command (c : Command)
  /-- A description of the program. -/
  | help
  /-- The version of the program. -/
  | version
  /-- Nothing that the program can do. -/
  | misuse
  deriving DecidableEq, Repr

namespace Invocation

/-- Whether an argument is an option, if no `--` stands in front of it. -/
def isOption (argument : String) : Bool :=
  match argument.toList with
  | '-' :: _ :: _ => true
  | _ => false

/-- Whether an argument is the given option, in its long form or as the first letter of a group of
short ones. -/
def isFlag (long : String) (short : Char) (argument : String) : Bool :=
  argument == long ||
    match argument.toList with
    | '-' :: letter :: _ => letter == short
    | _ => false

/-- Whether an argument asks for a description. -/
def isHelp : String → Bool :=
  isFlag "--help" 'h'

/-- Whether an argument asks for the version. -/
def isVersion : String → Bool :=
  isFlag "--version" 'V'

/-- A command that takes one expression. `seen?` is the expression, if it came before. -/
def ofExpression (command : String → Command) (seen? : Option String) : List String → Invocation
  | [] =>
    match seen? with
    | some expression => .command (command expression)
    | none => .misuse
  | "--" :: rest =>
    match seen?.toList ++ rest with
    | [expression] => .command (command expression)
    | _ => .misuse
  | argument :: rest =>
    if isHelp argument then .help
    else if isOption argument || seen?.isSome then .misuse
    else ofExpression command (some argument) rest

/-- The value of an option that is written behind an equals sign. -/
def attached? (option argument : String) : Option String :=
  let start := option.toList ++ ['=']
  if start.isPrefixOf argument.toList then
    some (String.ofList (argument.toList.drop start.length))
  else none

/-- A session with the given options. `prompt?` and `exitOnError` are the options that came
before; each may be given once. -/
def ofSession (prompt? : Option String) (exitOnError : Bool) : List String → Invocation
  | [] => .command (.repl ⟨prompt?.getD Session.standard.prompt, exitOnError⟩)
  | ["--"] => .command (.repl ⟨prompt?.getD Session.standard.prompt, exitOnError⟩)
  | "--prompt" :: value :: rest =>
    if prompt?.isSome || isOption value then .misuse else ofSession (some value) exitOnError rest
  | argument :: rest =>
    if isHelp argument then .help
    else if argument == "--exit-on-error" then
      if exitOnError then .misuse else ofSession prompt? true rest
    else
      match attached? "--prompt" argument with
      | some value => if prompt?.isSome then .misuse else ofSession (some value) exitOnError rest
      | none => .misuse

/-- What a list of arguments asks for. -/
def ofArguments : List String → Invocation
  | [] => .command (.repl .standard)
  | ["--"] => .command (.repl .standard)
  | "repl" :: rest => ofSession none false rest
  | "eval" :: rest => ofExpression .eval none rest
  | "tokenize" :: rest => ofExpression .tokenize none rest
  | "parse" :: rest => ofExpression .parse none rest
  | ["help"] => .help
  | ["help", name] =>
    if ["repl", "eval", "tokenize", "parse", "help"].contains name then .help else .misuse
  | argument :: _ =>
    if isHelp argument then .help else if isVersion argument then .version else .misuse

end Invocation

/-- The way in which the program takes its arguments. -/
structure CommandLine where
  /-- What a list of arguments asks for. -/
  invocation : List String → Invocation
  /-- What is written if arguments ask for a description. -/
  description : List String → String
  /-- What is written if arguments ask for the version. -/
  version : List String → String
  /-- What is said about arguments that ask for nothing. -/
  complaint : List String → String

namespace CommandLine

/-- The command line of the program, with the first lines only of what it may say about itself. -/
def standard : CommandLine where
  invocation := Invocation.ofArguments
  description _ := Command.line "Evaluates arithmetic and bitwise expressions."
  version _ := Command.line "calculator 0.1.0"
  complaint _ := "Usage: calculator [COMMAND]"

/-- What comes of running the program with the given arguments and input. -/
def run (cl : CommandLine) (arguments : List String) (input : List UInt8) : Outcome :=
  match cl.invocation arguments with
  | .command c => c.run input
  | .help => .ofOutput (cl.description arguments)
  | .version => .ofOutput (cl.version arguments)
  | .misuse => ⟨"", [.usage (cl.complaint arguments)], Outcome.misuse⟩

end CommandLine

/-- What comes of running the program with its own command line. -/
def run (arguments : List String) (input : List UInt8) : Outcome :=
  CommandLine.standard.run arguments input

end Reckoner
