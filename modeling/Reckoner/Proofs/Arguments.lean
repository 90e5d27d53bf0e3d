import Reckoner.Proofs.Seams
import Reckoner.Proofs.Stages
import Reckoner.Proofs.Unreadable

/-!
# Expressions as arguments

An expression that is given to the command line is answered like any other, unless it is taken for
an option. That happens to each expression with a sign in front of it that is a minus.

## Main definitions

* `Outcome.Answers outcome e`: the run writes the value of the expression, or announces why it has
  none;
* `CommandLine.TakesExpression cl name command`: how a command line takes the expression of a
  command.

## Main results

* `Invocation.ofExpression_singleton`: what one argument of a command asks for;
* `valueOf_ne_ok_of_isHelp`: an argument that asks for a description has no value;
* `run_eval_answers_iff`: the expressions that are answered.
-/

namespace Reckoner

/-- The run writes the value of an expression, or writes nothing and announces why there is none. -/
inductive Outcome.Answers (outcome : Outcome) (e : String) : Prop
  | value {x : Float} (h : valueOf e = .ok x) (houtput : outcome.output = Number.text x ++ "\n")
      (hcode : outcome.exitCode = 0)
  | failure {failure : Failure} (h : valueOf e = .error failure) (houtput : outcome.output = "")
      (hcode : outcome.exitCode = 65)
      (hheadline : ∃ headline, outcome.headline? = some headline ∧ failure.Announced headline)

namespace Invocation

theorem isOption_iff {argument : String} :
    isOption argument ↔ ∃ c rest, argument.toList = '-' :: c :: rest := by
  unfold isOption
  split
  next c rest h => simp [h]
  next h =>
    simp only [Bool.false_eq_true, false_iff]
    rintro ⟨c, rest, heq⟩
    exact h c rest heq

/-- An argument that asks for a description is an option. -/
theorem isOption_of_isHelp {argument : String} (h : isHelp argument) : isOption argument := by
  unfold isHelp isFlag at h
  rcases Bool.or_eq_true_iff.1 h with hlong | hshort
  · rw [eq_of_beq hlong]
    decide
  · split at hshort
    next letter rest heq => exact isOption_iff.2 ⟨letter, rest, heq⟩
    next => cases hshort

/-- The argument of a command is its expression unless it is an option, which asks for a description
or is one that there is not. -/
theorem ofExpression_singleton (command : String → Command) (e : String) :
    ofExpression command none [e] =
      if isOption e then if isHelp e then .help else .misuse else .command (command e) := by
  by_cases hseparator : e = "--"
  · subst hseparator
    rfl
  rw [ofExpression]
  · by_cases hhelp : isHelp e
    · rw [if_pos hhelp, if_pos (isOption_of_isHelp hhelp), if_pos hhelp]
    · rw [if_neg hhelp, if_neg hhelp, Option.isSome_none, Bool.or_false]
      rfl
  -- what separates options from expressions has been dealt with
  · exact hseparator

end Invocation

/-- A command that computes the value of an expression answers it. -/
theorem Command.answers_eval (e : String) (input : List UInt8) :
    ((Command.eval e).run input).Answers e := by
  rw [Command.run]
  cases h : valueOf e with
  | ok x => exact .value h rfl rfl
  | error failure => exact .failure h rfl rfl ⟨_, rfl, announced_of_valueOf_eq_error h⟩

/-! ### The option for help -/

/-- No name begins with the letter of the option for help. -/
theorem not_beginsWithName_help (rest : List Char) : ¬BeginsWithName ('h' :: rest) := by
  rintro ⟨kind, hkind, front, hprefix, hfront⟩
  have hall : keywords.all fun kind => kind.symbol.toList.head? ∉ [none, some 'H'] := by
    decide +kernel
  have hhead := of_decide_eq_true (List.all_eq_true.1 hall kind hkind)
  -- what the text begins with would begin with this letter too
  rw [← hfront] at hhead
  cases front with
  | nil => exact hhead (.head _)
  | cons c front =>
    obtain ⟨rfl, -⟩ := List.cons_prefix_cons.1 hprefix
    exact hhead (.tail _ (.head _))

/-- The scanner does not get past a sign with this letter behind it. -/
theorem Stream.failure?_minus_help {text : String} {rest : List Char}
    (h : text.toList = '-' :: 'h' :: rest) : (ofText text).failure? ≠ none := by
  -- the letter begins a word that cannot be read, whatever comes behind it
  have hword := MaximalRun.of_takeWhile isLetter ('h' :: rest)
  have hunreadable : Unreadable 1 'h' rest
      (.unknownWord (String.ofList (('h' :: rest).takeWhile isLetter)) 1) :=
    .unknownWord (by decide) List.takeWhile_append_dropWhile.symm hword
      (not_beginsWithName_help rest)
  have herror := Cursor.scan_eq_error_iff.2 ⟨[], 'h', rest, rfl, nofun, by decide, hunreadable⟩
  have hrest := @scanFrom_of_error [] _ _ _ (Prod.ext herror rfl)
  -- the sign is a token of its own, so that the word is what the scanner comes to
  have hsign := @scanFrom_lexeme_append (.operator .minus) [] ['-'] ('h' :: rest) "-" nofun
    (.operator .minus) rfl (apart_minus.seam_concat [] _) 0
  have hstream := hsign.trans (congrArg (behind _) hrest)
  rw [ofText, Cursor.start, h]
  intro hnone
  cases (congrArg failure? hstream).symm.trans hnone

/-- An argument that asks for a description has no value. -/
theorem valueOf_ne_ok_of_isHelp {e : String} (h : Invocation.isHelp e) (x : Float) :
    valueOf e ≠ .ok x := by
  intro hvalue
  rcases Bool.or_eq_true_iff.1 h with hlong | hshort
  · have hnone : valueOf "--help" = .error (.lexical (.unknownWord "help" 2)) := by decide +kernel
    rw [eq_of_beq hlong, hnone] at hvalue
    cases hvalue
  · split at hshort
    next letter rest heq =>
      obtain rfl := eq_of_beq hshort
      exact Stream.failure?_minus_help heq (failure?_eq_none_of_valueOf_eq_ok hvalue)
    next => cases hshort

/-! ### Runs -/

/-- The way in which a command line takes the one expression of a command. An argument that begins
with a minus sign and goes on is an option, and the only option there is asks for a description.
Behind the argument that ends the options, any argument is the expression. -/
structure CommandLine.TakesExpression (cl : CommandLine) (name : String)
    (command : String → Command) : Prop where
  /-- An argument that is no option is the expression. -/
  expression {e : String} (h : ¬Invocation.isOption e) :
    cl.invocation [name, e] = .command (command e)
  /-- A description can be asked for. -/
  help {e : String} (h : Invocation.isHelp e) : cl.invocation [name, e] = .help
  /-- There is no other option. -/
  misuse {e : String} (h : Invocation.isOption e) (hhelp : ¬Invocation.isHelp e) :
    cl.invocation [name, e] = .misuse
  /-- What comes behind the end of the options is the expression. -/
  separated (e : String) : cl.invocation [name, "--", e] = .command (command e)

namespace CommandLine

variable {cl : CommandLine} {name : String} {command : String → Command}

/-- So it is if the arguments of the command are taken as the program takes them. -/
theorem takesExpression_of_ofExpression
    (h : ∀ rest, cl.invocation (name :: rest) = Invocation.ofExpression command none rest) :
    cl.TakesExpression name command where
  expression hoption := by
    rw [h, Invocation.ofExpression_singleton, if_neg hoption]
  help hhelp := by
    rw [h, Invocation.ofExpression_singleton, if_pos (Invocation.isOption_of_isHelp hhelp),
      if_pos hhelp]
  misuse hoption hhelp := by
    rw [h, Invocation.ofExpression_singleton, if_pos hoption, if_neg hhelp]
  separated e := h ["--", e]

/-- An expression that is taken for an option gets a description or a complaint. -/
theorem TakesExpression.run_of_isOption (hcl : cl.TakesExpression name command) {e : String}
    (h : Invocation.isOption e) (input : List UInt8) :
    cl.run [name, e] input =
      if Invocation.isHelp e then .ofOutput (cl.description [name, e])
      else ⟨"", [.usage (cl.complaint [name, e])], 2⟩ := by
  rw [run]
  split_ifs with hhelp
  · rw [hcl.help hhelp]
  · rw [hcl.misuse h hhelp]
    rfl

end CommandLine

/-- Given as an argument, an expression is answered exactly if it does not begin with a minus sign
that something follows. Otherwise it is taken for an option, which asks for a description or is one
that there is not. Behind the argument that ends the options every expression is answered. -/
theorem run_eval_answers_iff {cl : CommandLine} (hcl : cl.TakesExpression "eval" .eval)
    (e : String) (input : List UInt8) :
    ((cl.run ["eval", e] input).Answers e ↔ ¬∃ c rest, e.toList = '-' :: c :: rest) ∧
    ((∃ c rest, e.toList = '-' :: c :: rest) →
      cl.run ["eval", e] input =
        if Invocation.isHelp e then .ofOutput (cl.description ["eval", e])
        else ⟨"", [.usage (cl.complaint ["eval", e])], 2⟩) ∧
    (cl.run ["eval", "--", e] input).Answers e := by
  refine ⟨⟨fun hanswers h => ?_, fun h => ?_⟩,
    fun h => hcl.run_of_isOption (Invocation.isOption_iff.2 h) input, ?_⟩
  · rw [hcl.run_of_isOption (Invocation.isOption_iff.2 h)] at hanswers
    split_ifs at hanswers with hhelp
    -- whatever the description says, there is no value that it could be
    · cases hanswers with
      | value hvalue => exact valueOf_ne_ok_of_isHelp hhelp _ hvalue
      | failure _ _ hcode => cases hcode
    · cases hanswers with
      | value _ _ hcode | failure _ _ hcode => cases hcode
  · rw [CommandLine.run, hcl.expression (Invocation.isOption_iff.not.2 h)]
    exact Command.answers_eval e input
  · rw [CommandLine.run, hcl.separated]
    exact Command.answers_eval e input

/-- A numeral with a minus sign is answered only behind the argument that ends the options. -/
theorem run_eval_minus_three_separated :
    CommandLine.standard.TakesExpression "eval" .eval ∧
      ¬(run ["eval", "-3"] []).Answers "-3" ∧ (run ["eval", "--", "-3"] []).Answers "-3" := by
  have hcl : CommandLine.standard.TakesExpression "eval" .eval :=
    CommandLine.takesExpression_of_ofExpression fun _ => rfl
  obtain ⟨hanswers, -, hseparated⟩ := run_eval_answers_iff hcl "-3" []
  exact ⟨hcl, fun h => hanswers.1 h ⟨'3', [], rfl⟩, hseparated⟩

/-- A numeral with a minus sign has a value, but is taken for an option that there is not. -/
theorem not_answers_minus_three :
    valueOf "-3" = .ok (-3) ∧
      run ["eval", "-3"] [] = ⟨"", [.usage (CommandLine.standard.complaint ["eval", "-3"])], 2⟩ ∧
      ¬(run ["eval", "-3"] []).Answers "-3" := by
  have hrun : run ["eval", "-3"] [] =
      ⟨"", [.usage (CommandLine.standard.complaint ["eval", "-3"])], 2⟩ := by
    rw [run, CommandLine.run]
    rfl
  refine ⟨by decide +kernel, hrun, fun hanswers => ?_⟩
  rw [hrun] at hanswers
  -- the exit code is neither that of a value nor that of a failure
  cases hanswers with
  | value _ _ hcode | failure _ _ hcode => cases hcode

end Reckoner
