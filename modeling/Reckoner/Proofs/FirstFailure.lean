import Reckoner.Proofs.Sessions

/-!
# Sessions that stop at a failure

A session that is told to stop at failures does the same as one that is not, up to the first line
that fails. There it stops, and what comes behind has no part in what it leaves.

## Main definitions

* `Session.strict prompt`: the session that stops at the first failure.

## Main results

* `Session.run_strict_append`, `Session.run_strict_cons`: the lines up to the first failure;
* `lines_up_to_complaint`: what there is behind the lines without a complaint;
* `strict_session`: what both sessions have in common.
-/

namespace Reckoner

namespace Session

/-- The session that stops at the first failure. -/
def strict (prompt : String) : Session :=
  ⟨prompt, true⟩

/-- A session that stops at failures stops at a line with a complaint, behind the prompt. -/
theorem run_strict_cons {text : String} {failure : Failure} (h : complaint? text = some failure)
    (prompt : String) (ls : List (List UInt8)) :
    (strict prompt).run (utf8 text :: ls) =
      .ofFailure prompt ⟨some sessionSource, text⟩ failure := by
  have hsays := says_ofLine text
  rw [run]
  generalize Answer.ofLine (utf8 text) = answer at hsays ⊢
  cases hsays with
  | blank _ _ hnone | value _ _ hnone =>
    rw [hnone] at h
    cases h
  | noValue _ _ hsome =>
    obtain rfl := Option.some.inj (hsome.symm.trans h)
    have hstops : (strict prompt).exitOnError = true := rfl
    rw [react, if_pos hstops]
    exact congrArg (Outcome.mk · _ _) String.append_empty

/-- In front of the first failure a session that stops at it goes on. -/
theorem run_strict_append {texts : List String} (h : ∀ text ∈ texts, complaint? text = none)
    (prompt : String) (ls : List (List UInt8)) :
    (strict prompt).run (texts.map utf8 ++ ls) =
      ((strict prompt).run ls).after (transcript prompt texts) (texts.flatMap reports) :=
  run_append (fun text htext => .inr (h text htext)) ls

/-- Both sessions do the same if they do the same behind lines without a complaint. -/
theorem run_strict_eq {texts : List String} (h : ∀ text ∈ texts, complaint? text = none)
    {prompt : String} {ls : List (List UInt8)}
    (hls : (strict prompt).run ls = (lenient prompt).run ls) :
    (strict prompt).run (texts.map utf8 ++ ls) = (lenient prompt).run (texts.map utf8 ++ ls) := by
  rw [run_strict_append h, run_lenient_append, hls]

end Session

/-- Behind the lines without a complaint there are no others, or one that is no text, or one that
has a complaint. -/
theorem lines_up_to_complaint (ls : List (List UInt8)) :
    ∃ (texts : List String) (after : List (List UInt8)), ls = texts.map utf8 ++ after ∧
      (∀ text ∈ texts, complaint? text = none) ∧
        (after = [] ∨ (∃ bad rest, after = bad :: rest ∧ ∀ text, utf8 text ≠ bad) ∨
          ∃ text rest failure, after = utf8 text :: rest ∧ complaint? text = some failure) := by
  induction ls with
  | nil => exact ⟨[], [], rfl, nofun, .inl rfl⟩
  | cons line ls ih =>
    by_cases hline : ∃ text, utf8 text = line
    · obtain ⟨text, rfl⟩ := hline
      cases hfirst : complaint? text with
      | some failure =>
        exact ⟨[], utf8 text :: ls, rfl, nofun, .inr (.inr ⟨text, ls, failure, rfl, hfirst⟩)⟩
      | none =>
        obtain ⟨texts, after, rfl, hnone, hafter⟩ := ih
        exact ⟨text :: texts, after, rfl, List.forall_mem_cons.2 ⟨hfirst, hnone⟩, hafter⟩
    · exact ⟨[], line :: ls, rfl, nofun, .inr (.inl ⟨line, ls, rfl, not_exists.1 hline⟩)⟩

/-- A complaint is the reason why a line has no value. -/
theorem valueOf_of_complaint? {text : String} {failure : Failure}
    (h : complaint? text = some failure) : valueOf text = .error failure := by
  rw [complaint?] at h
  split at h
  next => cases h
  next =>
    cases hvalue : valueOf text with
    | ok x =>
      rw [hvalue] at h
      cases h
    | error failure' =>
      rw [hvalue] at h
      rw [Option.some.inj h]

namespace Session

variable {prompt : String} {input : List UInt8} {texts : List String}

/-- What comes of a session that stops at the first failure, if there is one. -/
theorem outcome_strict {text : String} {after : List (List UInt8)} {failure : Failure}
    (h : Splits input (texts.map utf8 ++ utf8 text :: after))
    (hbefore : ∀ text ∈ texts, complaint? text = none) (hfailure : complaint? text = some failure) :
    (strict prompt).outcome input =
      .ofFailure (transcript prompt texts ++ prompt) ⟨some sessionSource, text⟩ failure := by
  have hreports : texts.flatMap reports = [] := by
    apply List.flatMap_eq_nil_iff.2
    intro text htext
    rw [reports, hbefore text htext]
    rfl
  rw [outcome_of_splits h, run_strict_append hbefore, run_strict_cons hfailure, hreports]
  rfl

/-- A session that goes on writes nothing about this line, and then what there is about others. -/
theorem output_lenient {text : String} {after : List (List UInt8)} {failure : Failure}
    (h : Splits input (texts.map utf8 ++ utf8 text :: after))
    (hfailure : complaint? text = some failure) :
    ((lenient prompt).outcome input).output =
      transcript prompt texts ++ prompt ++ ((lenient prompt).run after).output := by
  have hecho : echo text = "" := by rw [echo, valueOf_of_complaint? hfailure]
  rw [outcome_of_splits h, run_lenient_append, run_cons_utf8 (.inl rfl), hecho,
    Outcome.output_after, Outcome.output_after, lenient, String.append_empty, String.append_assoc]

end Session

open Session in
/-- A session that stops at failures, and one that does not. If no line has a complaint, up to the
end or to the first line that is no text, both leave the same. Else the one stops behind the prompt
of the first line that has one. It reports this complaint and no other, and its headline is that of
the family. The other session writes as much, and goes on. There are no other inputs.

What comes behind the end of the line with the first complaint has no part in what is left. -/
theorem strict_session (prompt : String) :
    (∀ (input : List UInt8) (texts : List String), Splits input (texts.map utf8) →
      (∀ text ∈ texts, complaint? text = none) →
      (strict prompt).outcome input = (lenient prompt).outcome input) ∧
    (∀ (input : List UInt8) (texts : List String) (bad : List UInt8) (after : List (List UInt8)),
      Splits input (texts.map utf8 ++ bad :: after) → (∀ text, utf8 text ≠ bad) →
      (∀ text ∈ texts, complaint? text = none) →
      (strict prompt).outcome input = (lenient prompt).outcome input) ∧
    (∀ (input : List UInt8) (texts : List String) (text : String) (after : List (List UInt8))
        (failure : Failure),
      Splits input (texts.map utf8 ++ utf8 text :: after) →
      (∀ text ∈ texts, complaint? text = none) → complaint? text = some failure →
      ((strict prompt).outcome input).Fails ⟨some sessionSource, text⟩ failure ∧
      ((strict prompt).outcome input).reportCount = 1 ∧
      ((strict prompt).outcome input).output = transcript prompt texts ++ prompt ∧
      ((lenient prompt).outcome input).output =
        ((strict prompt).outcome input).output ++ ((lenient prompt).run after).output) ∧
    (∀ input, ∃ (texts : List String) (after : List (List UInt8)),
      Splits input (texts.map utf8 ++ after) ∧ (∀ text ∈ texts, complaint? text = none) ∧
        (after = [] ∨ (∃ bad rest, after = bad :: rest ∧ ∀ text, utf8 text ≠ bad) ∨
          ∃ text rest failure, after = utf8 text :: rest ∧ complaint? text = some failure)) ∧
    (∀ (front back : List UInt8) (texts : List String) (text : String) (failure : Failure),
      Splits front (texts.map utf8 ++ [utf8 text]) → front.getLast? = some newline →
      (∀ text ∈ texts, complaint? text = none) → complaint? text = some failure →
      (strict prompt).outcome (front ++ back) = (strict prompt).outcome front) ∧
    Invocation.ofArguments ["repl", "--prompt=" ++ prompt, "--exit-on-error"] =
      .command (.repl (strict prompt)) := by
  refine ⟨?_, ?_, ?_, ?_, ?_, ?_⟩
  -- no line fails up to the end
  · intro input texts h hnone
    have hlines : (strict prompt).run (texts.map utf8 ++ []) =
        (lenient prompt).run (texts.map utf8 ++ []) := run_strict_eq hnone rfl
    rw [List.append_nil] at hlines
    rw [outcome_of_splits h, outcome_of_splits h, hlines]
  -- no line fails up to the one that ends both sessions
  · intro input texts bad after h hbad hnone
    rw [outcome_of_splits h, outcome_of_splits h]
    apply run_strict_eq hnone
    rw [run_cons_of_ne_utf8 hbad, run_cons_of_ne_utf8 hbad]
    rfl
  -- there is a first line that fails
  · intro input texts text after failure h hnone hfailure
    have hfamily := announced_of_valueOf_eq_error (valueOf_of_complaint? hfailure)
    rw [outcome_strict h hnone hfailure, output_lenient h hfailure]
    exact ⟨(Outcome.fails_ofFailure_iff hfamily).2 rfl, rfl, rfl, rfl⟩
  · intro input
    obtain ⟨texts, after, hlines, hnone, hafter⟩ := lines_up_to_complaint (lines input)
    exact ⟨texts, after, hlines ▸ splits_lines input, hnone, hafter⟩
  -- in front of anything else the lines are the same up to the one that fails
  · intro front back texts text failure h hend hnone hfailure
    have hboth := h.append_lines hend back
    rw [List.append_assoc, List.singleton_append] at hboth
    rw [outcome_strict hboth hnone hfailure, outcome_strict h hnone hfailure]
  · exact Invocation.ofSession_prompt prompt ["--exit-on-error"]

open Session in
/-- A blank line, one with a value and one that divides by zero, in front of bytes that are no
text. -/
theorem strict_session_division :
    Splits (utf8 " " ++ newline :: (utf8 "2" ++ newline :: (utf8 "1//0" ++ newline :: [255])))
        (([" ", "2"].map utf8) ++ utf8 "1//0" :: [[255]]) ∧
      ((strict "> ").outcome (utf8 " " ++ newline :: (utf8 "2" ++ newline :: (utf8 "1//0" ++
        newline :: [255])))).output = "> > 2.0\n> " ∧
      ((strict "> ").outcome (utf8 " " ++ newline :: (utf8 "2" ++ newline :: (utf8 "1//0" ++
        newline :: [255])))).Fails ⟨some "<stdin>", "1//0"⟩ (.value (.divisionByZero ⟨1, 2⟩)) := by
  have hsplits : Splits (utf8 " " ++ newline :: (utf8 "2" ++ newline :: (utf8 "1//0" ++
      newline :: [255]))) (([" ", "2"].map utf8) ++ utf8 "1//0" :: [[255]]) :=
    .ended (by decide +kernel) (by decide +kernel) <|
      .ended (by decide +kernel) (by decide +kernel) <|
      .ended (by decide +kernel) (by decide +kernel) <| .unended (by decide) (by decide)
  have hfailure : complaint? "1//0" = some (.value (.divisionByZero ⟨1, 2⟩)) := by decide +kernel
  obtain ⟨hfails, -, houtput, -⟩ := (strict_session "> ").2.2.1 _ _ _ _ _ hsplits
    (by decide +kernel) hfailure
  exact ⟨hsplits, houtput.trans (by decide +kernel), hfails⟩

end Reckoner
