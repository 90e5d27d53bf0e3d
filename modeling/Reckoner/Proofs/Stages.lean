import Reckoner.CommandLine
import Reckoner.Proofs.Diagnostics
import Reckoner.Proofs.Listings

/-!
# The stages of a calculation

The tokens of an expression can be listed, its tree can be written, and its value can be computed.
Each of these stages goes as far as the one in front of it, at least, and has the failures of that
one. Only for the scanner and the reader this is not the whole truth: a text may hold an error that
the scanner meets behind the place at which the reader fails.

## Main definitions

* `Failure.Announced failure headline`: how the program announces a failure;
* `Outcome.Fails outcome source failure`: the run stops since a source has no value;
* `Stages`: what the three stages may come to on one text;
* `Outcome.Agree`: the runs of the three commands on one expression agree.

## Main results

* `stages`: the cases that there are;
* `stages_agree`: the agreement of the commands that list, parse and evaluate an expression.
-/

namespace Reckoner

/-- The headline names the family of the failure. -/
inductive Failure.Announced : Failure → String → Prop
  | lexical (error : LexicalError) : Announced (.lexical error) "Error: scan error"
  | grammar (error : GrammarError) : Announced (.grammar error) "Error: syntax error"
  | division (span : Span) : Announced (.value (.divisionByZero span)) "Error: arithmetic error"

/-- The run stops since a source has no value, for the given reason. -/
structure Outcome.Fails (outcome : Outcome) (source : Source) (failure : Failure) : Prop where
  /-- The exit code says so. -/
  exitCode_eq : outcome.exitCode = 65
  /-- The reason is announced, and then reported. -/
  notices_eq : ∃ reason, outcome.notices = [.headline reason, .report source failure]
  /-- The headline is that of the family. -/
  announced : ∃ headline, outcome.headline? = some headline ∧ failure.Announced headline

/-- What may come of the three stages: the error of the scanner if there is one, the tree of the
expression and its value. -/
inductive Stages : Option LexicalError → Except Failure Expr → Except Failure Float → Prop
  /-- All goes well. -/
  | value {e : Expr} {x : Float} : Stages none (.ok e) (.ok x)
  /-- Only the value is missing. -/
  | division {e : Expr} {span : Span} :
      Stages none (.ok e) (.error (.value (.divisionByZero span)))
  /-- The text has tokens but no tree. -/
  | grammar {error : GrammarError} :
      Stages none (.error (.grammar error)) (.error (.grammar error))
  /-- The reader comes to the error of the scanner. -/
  | lexical {error : LexicalError} :
      Stages (some error) (.error (.lexical error)) (.error (.lexical error))
  /-- The reader fails in front of the error of the scanner. -/
  | early {error : LexicalError} {error' : GrammarError}
      (h : error'.span.offset + error'.span.length ≤ error.span.offset) :
      Stages (some error) (.error (.grammar error')) (.error (.grammar error'))

/-- What the three stages come to on a text. -/
theorem stages (text : String) :
    Stages (Stream.ofText text).failure? (parse text).result (valueOf text) := by
  cases hparse : (parse text).result with
  | ok e =>
    obtain ⟨ts, length, n, hs, -⟩ := exists_derives_of_parse_eq_ok hparse
    rw [valueOf_of_parse_eq_ok hparse, hs]
    rcases (evaluable_of_parse_eq_ok hparse).value_cases with ⟨x, hx⟩ | ⟨t, -, -, herror⟩
    · rw [hx]
      exact .value
    · rw [herror]
      exact .division
  | error failure =>
    rw [valueOf_of_parse_eq_error hparse]
    rcases exists_isAbout_of_parse_eq_error hparse with
      ⟨error, rfl, hstop⟩ | ⟨error, rfl, t, hmem, habout⟩
    · rw [Stream.failure?_eq_some_iff.2 hstop]
      exact .lexical
    · cases hfailure : (Stream.ofText text).failure? with
      | none => exact .grammar
      | some error' =>
        have hstop := Stream.failure?_eq_some_iff.1 hfailure
        -- without an end all that is listed are tokens
        have hlisting : (Stream.ofText text).listing = (Stream.ofText text).tokens := by
          rw [Stream.listing, Stream.ending, hstop]
          exact List.append_nil _
        have hplace := (Stream.ordered_ofText text).le_place t (hlisting ▸ hmem)
        rw [hstop, ← habout.2] at hplace
        exact .early hplace

/-! ### Commands -/

namespace Outcome

variable {source : Source} {failure failure' : Failure} {output : String}

@[simp]
theorem exitCode_ofOutput (output : String) : (ofOutput output).exitCode = 0 := rfl

@[simp]
theorem exitCode_ofFailure : (ofFailure output source failure).exitCode = 65 := rfl

@[simp]
theorem output_ofFailure : (ofFailure output source failure).output = output := rfl

/-- A run that stops since a text has no value fails for this reason and no other. -/
theorem fails_ofFailure_iff (h : failure.Announced ("Error: " ++ failure.family)) :
    (ofFailure output source failure).Fails source failure' ↔ failure' = failure := by
  constructor
  · intro hfails
    obtain ⟨_, hnotices⟩ := hfails.notices_eq
    have hreport := (List.cons.inj (List.cons.inj hnotices).2).1
    exact (Notice.report.inj hreport).2.symm
  · rintro rfl
    exact ⟨rfl, ⟨_, rfl⟩, _, rfl, h⟩

@[simp]
theorem fails_lexical_iff {error : LexicalError} :
    (ofFailure output source (.lexical error)).Fails source failure ↔ failure = .lexical error :=
  fails_ofFailure_iff (.lexical error)

@[simp]
theorem fails_grammar_iff {error : GrammarError} :
    (ofFailure output source (.grammar error)).Fails source failure ↔ failure = .grammar error :=
  fails_ofFailure_iff (.grammar error)

@[simp]
theorem fails_division_iff {span : Span} :
    (ofFailure output source (.value (.divisionByZero span))).Fails source failure ↔
      failure = .value (.divisionByZero span) :=
  fails_ofFailure_iff (.division span)

/-- A run that ends well does not fail. -/
@[simp]
theorem not_fails_ofOutput : ¬(ofOutput output).Fails source failure := by
  intro h
  cases h.exitCode_eq

end Outcome

/-- The scanner reaches the end of a text with a value. -/
theorem failure?_eq_none_of_valueOf_eq_ok {text : String} {x : Float} (h : valueOf text = .ok x) :
    (Stream.ofText text).failure? = none := by
  have hstages := stages text
  rw [h] at hstages
  generalize (Stream.ofText text).failure? = failure? at hstages ⊢
  generalize (parse text).result = tree at hstages
  cases hstages with
  | value => rfl

/-- Whatever keeps a text from having a value is announced by its family. -/
theorem announced_of_valueOf_eq_error {text : String} {failure : Failure}
    (h : valueOf text = .error failure) : failure.Announced ("Error: " ++ failure.family) := by
  have hstages := stages text
  rw [h] at hstages
  generalize (Stream.ofText text).failure? = failure? at hstages
  generalize (parse text).result = tree at hstages
  cases hstages with
  | division => exact .division _
  | grammar | early => exact .grammar _
  | lexical => exact .lexical _

/-- The runs of the three commands on one expression agree. -/
structure Outcome.Agree (source : Source) (tokenized parsed evaluated : Outcome) : Prop where
  /-- What has a value has a tree, and what has a tree has tokens. -/
  succeeds : evaluated.exitCode = 0 → parsed.exitCode = 0 ∧ tokenized.exitCode = 0
  /-- What has no tree has no value, for the same reason. -/
  same_failure : parsed.exitCode ≠ 0 → evaluated = parsed
  /-- A tree has a value unless it divides by zero. -/
  divides : parsed.exitCode = 0 → tokenized.exitCode = 0 ∧ (evaluated.exitCode = 0 ∨
    ∃ span, evaluated.Fails source (.value (.divisionByZero span)))
  /-- What has no tokens has no tree, for the same reason or one in front of it. -/
  fails_before : ∀ error, tokenized.Fails source (.lexical error) → ∃ failure,
    parsed.Fails source failure ∧ evaluated.Fails source failure ∧
      (failure = .lexical error ∨ ∃ error', failure = .grammar error' ∧
        error'.span.offset + error'.span.length ≤ error.span.offset)
  /-- There is no error of the scanner but the one that is listed. -/
  not_lexical : tokenized.exitCode = 0 → ∀ error,
    ¬parsed.Fails source (.lexical error) ∧ ¬evaluated.Fails source (.lexical error)
  /-- Whatever fails says why. -/
  tokenized_fails : tokenized.exitCode ≠ 0 → ∃ error, tokenized.Fails source (.lexical error)
  parsed_fails : parsed.exitCode ≠ 0 →
    parsed.output = "" ∧ ∃ failure, parsed.Fails source failure
  evaluated_fails : evaluated.exitCode ≠ 0 →
    evaluated.output = "" ∧ ∃ failure, evaluated.Fails source failure

/-- So it is with the commands on every expression. -/
theorem Command.agree (e : String) (input : List UInt8) :
    Outcome.Agree (argumentSource e) ((tokenize e).run input) ((parse e).run input)
      ((eval e).run input) := by
  -- each of the runs depends on the result of its own stage alone
  have h := stages e
  simp only [run]
  generalize (Stream.ofText e).failure? = failure? at h ⊢
  generalize (Reckoner.parse e).result = tree at h ⊢
  generalize valueOf e = value at h ⊢
  constructor
  case fails_before =>
    intro error hfails
    cases h with
    | value | division | grammar => exact absurd hfails Outcome.not_fails_ofOutput
    | lexical =>
      obtain rfl := Failure.lexical.inj (Outcome.fails_lexical_iff.1 hfails)
      exact ⟨_, Outcome.fails_lexical_iff.2 rfl, Outcome.fails_lexical_iff.2 rfl, .inl rfl⟩
    | early hle =>
      obtain rfl := Failure.lexical.inj (Outcome.fails_lexical_iff.1 hfails)
      exact ⟨_, Outcome.fails_grammar_iff.2 rfl, Outcome.fails_grammar_iff.2 rfl,
        .inr ⟨_, rfl, hle⟩⟩
  -- the other parts are read off the runs, case by case
  all_goals cases h <;> simp

/-- What a scanner answers on its way to the end of a text, or to an error. -/
theorem Stream.yields_listing (text : String) :
    (Scanner.ofText text).Yields ((ofText text).listing.map .ok ++
      ((ofText text).failure?.map .error).toList) := by
  apply Scanner.yields_iff.2
  change _ = (ofText text).answers
  rw [answers, listing, ending, failure?]
  cases (ofText text).stop <;> simp

/-- Whatever stands in an expression, the commands that list its tokens, write its tree and compute
its value agree, and a failure is announced by its family. The tokens are those that the scanner
answers, each on a line of its own, and the end of the text is on the last line exactly if the run
ends well. Every text can be given as an expression. -/
theorem stages_agree (e : String) (input : List UInt8) :
    Outcome.Agree (Command.argumentSource e) ((Command.tokenize e).run input)
      ((Command.parse e).run input) ((Command.eval e).run input) ∧
    (∃ ts : List Token,
      ((Command.tokenize e).run input).output = String.join (ts.map fun t => t.listing ++ "\n") ∧
      (∀ t ∈ ts, '\n' ∉ t.listing.toList) ∧
      (((Command.tokenize e).run input).exitCode = 0 →
        (Scanner.ofText e).Yields (ts.map .ok)) ∧
      (∀ error, ((Command.tokenize e).run input).Fails (Command.argumentSource e)
          (.lexical error) →
        (Scanner.ofText e).Yields (ts.map .ok ++ [.error error])) ∧
      (((Command.tokenize e).run input).exitCode = 0 ↔
        ts.getLast?.map Token.listing = some "END_OF_INPUT")) ∧
    Invocation.ofArguments ["tokenize", "--", e] = .command (.tokenize e) ∧
    Invocation.ofArguments ["parse", "--", e] = .command (.parse e) ∧
    Invocation.ofArguments ["eval", "--", e] = .command (.eval e) := by
  have hyields := Stream.yields_listing e
  refine ⟨Command.agree e input, ⟨(Stream.ofText e).listing, ?_⟩, rfl, rfl, rfl⟩
  rw [Stream.getLast?_listing_iff]
  simp only [Command.run]
  cases hfailure : (Stream.ofText e).failure? with
  | none =>
    rw [hfailure] at hyields
    refine ⟨rfl, fun t => Stream.newline_not_mem_listing, fun _ => ?_, ?_, by simp⟩
    · simpa using hyields
    · intro error hfails
      exact absurd hfails Outcome.not_fails_ofOutput
  | some error =>
    rw [hfailure] at hyields
    refine ⟨rfl, fun t => Stream.newline_not_mem_listing, ?_, ?_, by simp⟩
    · intro hcode
      cases hcode
    · intro error' hfails
      obtain rfl := Failure.lexical.inj (Outcome.fails_lexical_iff.1 hfails)
      exact hyields

/-- The scanner alone meets the error at the end, as the reader fails in front of it. -/
example : ((Command.tokenize "1 ) @").run []).headline? = some "Error: scan error" ∧
    ((Command.parse "1 ) @").run []).headline? = some "Error: syntax error" := by
  decide +kernel

end Reckoner
