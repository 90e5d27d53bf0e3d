import Reckoner.Proofs.Lines
import Reckoner.Proofs.Stages

/-!
# Sessions

A session answers each line by itself: what is written behind the prompt, and what is reported,
depends on this line and on no other.

## Main definitions

* `echo text`: what is written about a line;
* `complaint? text`: why a line is reported, if it is;
* `transcript prompt texts`: what is written about lines, each behind a prompt;
* `Session.lenient prompt`: the session that goes on after failures.

## Main results

* `Session.run_append`: the lines in front of others, if the session does not stop at one of them;
* `lines_cases`: all lines are texts, or there is a first one that is none;
* `default_session`: what a session comes to that does not stop at failures.
-/

namespace Reckoner

/-- What is written about a line behind the prompt: its value, if there is one. -/
def echo (text : String) : String :=
  match valueOf text with
  | .ok x => Number.text x ++ "\n"
  | .error _ => ""

/-- Why a line is reported, if it is. Blank lines are not. -/
def complaint? (text : String) : Option Failure :=
  if text.toList.all isBlank then none
  else
    match valueOf text with
    | .ok _ => none
    | .error failure => some failure

/-- What is reported about a line. -/
def reports (text : String) : List Notice :=
  (complaint? text).toList.map (.report ⟨some sessionSource, text⟩)

/-- What is written about lines, each behind a prompt. -/
def transcript (prompt : String) (texts : List String) : String :=
  String.join (texts.map fun text => prompt ++ echo text)

/-- A text of blanks has no value. -/
theorem exists_valueOf_eq_error_of_blank {text : String} (h : text.toList.all isBlank) :
    ∃ failure, valueOf text = .error failure := by
  cases hparse : (parse text).result with
  | error failure => exact ⟨failure, valueOf_of_parse_eq_error hparse⟩
  | ok e =>
    -- an expression has a token at least
    obtain ⟨ts, length, n, hs, hderives, -⟩ := exists_derives_of_parse_eq_ok hparse
    have hblank : Stream.ofText text = ⟨[], .endOfInput (0 + utf8Length text.toList)⟩ :=
      Stream.scanFrom_of_endOfInput (Cursor.scan_of_blank (List.all_eq_true.1 h)) rfl
    rw [hblank] at hs
    exact absurd (Stream.mk.inj hs).1.symm hderives.ne_nil

/-- What there is to say about a line that is a text. -/
inductive Says (text : String) : Answer → Prop
  /-- There is nothing on the line, and nothing comes of it. -/
  | blank (h : text.toList.all isBlank) (hecho : echo text = "") (hnone : complaint? text = none) :
      Says text .blank
  /-- The value is written. -/
  | value {x : Float} (h : ¬text.toList.all isBlank) (hecho : echo text = Number.text x ++ "\n")
      (hnone : complaint? text = none) : Says text (.value x)
  /-- Nothing is written, and the failure is reported. -/
  | noValue {failure : Failure} (h : ¬text.toList.all isBlank) (hecho : echo text = "")
      (hsome : complaint? text = some failure) :
      Says text (.noValue ⟨some sessionSource, text⟩ failure)

theorem says_ofLine (text : String) : Says text (.ofLine (utf8 text)) := by
  rw [Answer.ofLine, fromUTF8?_utf8]
  dsimp only
  split
  next hblank =>
    obtain ⟨failure, hvalue⟩ := exists_valueOf_eq_error_of_blank hblank
    exact .blank hblank (by rw [echo, hvalue]) (if_pos hblank)
  next hblank =>
    cases hvalue : valueOf text with
    | ok x => exact .value hblank (by rw [echo, hvalue]) (by rw [complaint?, if_neg hblank, hvalue])
    | error failure =>
      exact .noValue hblank (by rw [echo, hvalue]) (by rw [complaint?, if_neg hblank, hvalue])

/-- A line that is no text cannot be read. -/
theorem ofLine_of_ne_utf8 {line : List UInt8} (h : ∀ text, utf8 text ≠ line) :
    Answer.ofLine line = .unreadable := by
  rw [Answer.ofLine]
  cases hread : String.fromUTF8? ⟨line.toArray⟩ with
  | none => rfl
  | some text => exact absurd (utf8_of_fromUTF8? hread) (h text)

/-- The scanner finds nothing but the end in a text of blanks, and only there. -/
theorem all_isBlank_iff {text : String} : text.toList.all isBlank ↔
    ∃ token, (Scanner.ofText text).pull.1 = .ok token ∧ token.kind = .endOfInput := by
  constructor
  · intro h
    exact ⟨_, congrArg Prod.fst (Cursor.scan_of_blank (List.all_eq_true.1 h)), rfl⟩
  · rintro ⟨token, hpull, hkind⟩
    have hscan : (⟨0, text.toList⟩ : Cursor).scan =
        (.ok token, (⟨0, text.toList⟩ : Cursor).scan.2) := Prod.ext hpull rfl
    rcases Cursor.leads_of_scan_eq_ok hscan with ⟨hblank, -⟩ | ⟨_, _, _, -, hleads, -⟩
    · exact List.all_eq_true.2 hblank
    · exact absurd hkind hleads.longest.spells.ne_endOfInput

/-- Lines that are passed over hold nothing for the scanner. -/
theorem ofLine_eq_blank_iff {line : List UInt8} : Answer.ofLine line = .blank ↔
    ∃ text token, utf8 text = line ∧
      (Scanner.ofText text).pull.1 = .ok token ∧ token.kind = .endOfInput := by
  constructor
  · intro h
    by_cases hline : ∃ text, utf8 text = line
    · obtain ⟨text, rfl⟩ := hline
      have hsays := says_ofLine text
      rw [h] at hsays
      cases hsays with
      | blank hblank =>
        obtain ⟨token, hpull, hkind⟩ := all_isBlank_iff.1 hblank
        exact ⟨text, token, rfl, hpull, hkind⟩
    · rw [ofLine_of_ne_utf8 (not_exists.1 hline)] at h
      cases h
  · rintro ⟨text, token, rfl, hpull, hkind⟩
    have hblank := all_isBlank_iff.2 ⟨token, hpull, hkind⟩
    have hsays := says_ofLine text
    generalize Answer.ofLine (utf8 text) = answer at hsays ⊢
    cases hsays with
    | blank => rfl
    | value h | noValue h => exact absurd hblank h

/-! ### Runs -/

namespace Outcome

@[simp]
theorem output_after (outcome : Outcome) (output : String) (notices : List Notice) :
    (outcome.after output notices).output = output ++ outcome.output := rfl

@[simp]
theorem reportCount_after (outcome : Outcome) (output : String) (notices : List Notice) :
    (outcome.after output notices).reportCount =
      notices.countP Notice.isReport + outcome.reportCount :=
  List.countP_append

theorem after_nil (outcome : Outcome) : outcome.after "" [] = outcome := by
  rw [after, String.empty_append, List.nil_append]

theorem after_after (outcome : Outcome) (output output' : String) (notices notices' : List Notice) :
    (outcome.after output notices).after output' notices' =
      outcome.after (output' ++ output) (notices' ++ notices) := by
  simp [after, String.append_assoc]

end Outcome

namespace Session

variable {session : Session}

/-- A session that does not stop at a line writes and reports what there is, and goes on. -/
theorem run_cons_utf8 {text : String}
    (h : session.exitOnError = false ∨ complaint? text = none) (ls : List (List UInt8)) :
    session.run (utf8 text :: ls) =
      (session.run ls).after (session.prompt ++ echo text) (reports text) := by
  have hsays := says_ofLine text
  rw [run, reports]
  generalize Answer.ofLine (utf8 text) = answer at hsays ⊢
  cases hsays with
  | blank _ hecho hnone | value _ hecho hnone =>
    rw [hecho, hnone]
    rfl
  | @noValue failure _ hecho hsome =>
    -- only a session that goes on comes behind a complaint
    rw [hecho, hsome, react, if_neg]
    · rfl
    · rcases h with hgoes | hnone
      · rw [hgoes]
        decide
      · rw [hnone] at hsome
        cases hsome

/-- A session stops at a line that is no text, behind the prompt. -/
theorem run_cons_of_ne_utf8 {line : List UInt8} (h : ∀ text, utf8 text ≠ line)
    (ls : List (List UInt8)) :
    session.run (line :: ls) =
      ⟨session.prompt, [.headline "  × reading from stdin failed"], 1⟩ := by
  rw [run, ofLine_of_ne_utf8 h]
  exact congrArg (Outcome.mk · _ _) (String.append_empty)

/-- If a session stops at none of the lines in front of others, it writes and reports what there is
about each of them, and then does as with the others alone. -/
theorem run_append {texts : List String}
    (h : ∀ text ∈ texts, session.exitOnError = false ∨ complaint? text = none)
    (ls : List (List UInt8)) :
    session.run (texts.map utf8 ++ ls) =
      (session.run ls).after (transcript session.prompt texts) (texts.flatMap reports) := by
  induction texts with
  | nil => exact (Outcome.after_nil _).symm
  | cons text texts ih =>
    have hrest := ih fun text htext => h text (.tail _ htext)
    rw [List.map_cons, List.cons_append, run_cons_utf8 (h text (.head _)), hrest,
      Outcome.after_after, transcript, transcript, List.map_cons, String.join_cons]
    rfl

end Session

/-- All lines are texts, or there is a first one that is none. -/
theorem lines_cases (ls : List (List UInt8)) :
    (∃ texts : List String, ls = texts.map utf8) ∨
      ∃ (texts : List String) (bad : List UInt8) (after : List (List UInt8)),
        ls = texts.map utf8 ++ bad :: after ∧ ∀ text, utf8 text ≠ bad := by
  induction ls with
  | nil => exact .inl ⟨[], rfl⟩
  | cons line ls ih =>
    by_cases hline : ∃ text, utf8 text = line
    · obtain ⟨text, rfl⟩ := hline
      rcases ih with ⟨texts, rfl⟩ | ⟨texts, bad, after, rfl, hbad⟩
      · exact .inl ⟨text :: texts, rfl⟩
      · exact .inr ⟨text :: texts, bad, after, rfl, hbad⟩
    · exact .inr ⟨[], line, ls, rfl, not_exists.1 hline⟩

/-- Each line with a complaint is reported once. -/
theorem countP_flatMap_reports (texts : List String) :
    (texts.flatMap reports).countP Notice.isReport =
      texts.countP fun text => (complaint? text).isSome := by
  induction texts with
  | nil => rfl
  | cons text texts ih =>
    have hline : (reports text).countP Notice.isReport =
        if (complaint? text).isSome then 1 else 0 := by
      rw [reports]
      cases complaint? text <;> rfl
    rw [List.flatMap_cons, List.countP_append, ih, hline, List.countP_cons, Nat.add_comm]

namespace Session

/-- The session that goes on after failures. -/
def lenient (prompt : String) : Session :=
  ⟨prompt, false⟩

/-- What comes of a session, given the bytes of the input. -/
def outcome (session : Session) (input : List UInt8) : Outcome :=
  (Command.repl session).run input

theorem outcome_of_splits {session : Session} {input : List UInt8} {ls : List (List UInt8)}
    (h : Splits input ls) : session.outcome input = session.run ls := by
  rw [outcome, Command.run, splits_iff.1 h]

/-- A session that goes on after failures treats every line by itself. -/
theorem run_lenient_append (prompt : String) (texts : List String) (ls : List (List UInt8)) :
    (lenient prompt).run (texts.map utf8 ++ ls) =
      ((lenient prompt).run ls).after (transcript prompt texts) (texts.flatMap reports) :=
  run_append (fun _ _ => .inl rfl) ls

end Session

/-- Any prompt can be given, behind an equals sign. -/
theorem Invocation.ofSession_prompt (prompt : String) (rest : List String) :
    ofSession none false (("--prompt=" ++ prompt) :: rest) =
      ofSession (some prompt) false rest := by
  have hlist : ("--prompt=" ++ prompt).toList = "--prompt=".toList ++ prompt.toList :=
    String.toList_append
  -- the argument is none of the others, since these do not begin in the same way
  have hne : ∀ other : String, ¬"--prompt=".toList <+: other.toList →
      "--prompt=" ++ prompt ≠ other := by
    rintro _ hbegins rfl
    exact hbegins (hlist ▸ List.prefix_append _ _)
  have hend := hne "--" (by decide)
  have hdetached := hne "--prompt" (by decide)
  have hstrict := hne "--exit-on-error" (by decide)
  have hhelp := hne "--help" (by decide)
  simp [ofSession, isHelp, isFlag, attached?, hend, hdetached, hstrict, hhelp]

open Session in
/-- What comes of a session that goes on after failures. If all lines of the input are texts, then
behind each prompt stands the value of the line, if it has one, and each line that is not blank and
has no value is reported. The session ends well, with a prompt and a newline. If there is a line
that is no text, the session stops at the first one, behind the prompt. There are no other inputs.

The lines that are passed over are those in which the scanner finds nothing but the end. What comes
behind the end of a line is answered as it is by itself. -/
theorem default_session (prompt : String) :
    (∀ (input : List UInt8) (texts : List String), Splits input (texts.map utf8) →
      ((lenient prompt).outcome input).exitCode = 0 ∧
      ((lenient prompt).outcome input).output = transcript prompt texts ++ (prompt ++ "\n") ∧
      ((lenient prompt).outcome input).reportCount =
        texts.countP fun text => (complaint? text).isSome) ∧
    (∀ (input : List UInt8) (texts : List String) (bad : List UInt8) (after : List (List UInt8)),
      Splits input (texts.map utf8 ++ bad :: after) → (∀ text, utf8 text ≠ bad) →
      ((lenient prompt).outcome input).exitCode = 1 ∧
      ((lenient prompt).outcome input).output = transcript prompt texts ++ prompt) ∧
    (∀ input, (∃ texts : List String, Splits input (texts.map utf8)) ∨
      ∃ (texts : List String) (bad : List UInt8) (after : List (List UInt8)),
        Splits input (texts.map utf8 ++ bad :: after) ∧ ∀ text, utf8 text ≠ bad) ∧
    (∀ line, Answer.ofLine line = .blank ↔ ∃ text token, utf8 text = line ∧
      (Scanner.ofText text).pull.1 = .ok token ∧ token.kind = .endOfInput) ∧
    (∀ (front back : List UInt8) (texts : List String), Splits front (texts.map utf8) →
      front.getLast? = some newline →
      ∃ written,
        ((lenient prompt).outcome front).output = written ++ (prompt ++ "\n") ∧
        ((lenient prompt).outcome (front ++ back)).output =
          written ++ ((lenient prompt).outcome back).output ∧
        ((lenient prompt).outcome (front ++ back)).exitCode =
          ((lenient prompt).outcome back).exitCode) ∧
    Invocation.ofArguments ["repl", "--prompt=" ++ prompt] = .command (.repl (lenient prompt)) := by
  have hall : ∀ texts : List String, (lenient prompt).run (texts.map utf8) =
      (Outcome.ofOutput (prompt ++ "\n")).after (transcript prompt texts)
        (texts.flatMap reports) := by
    intro texts
    rw [← List.append_nil (texts.map utf8)]
    exact run_lenient_append prompt texts []
  refine ⟨?_, ?_, ?_, fun line => ofLine_eq_blank_iff, ?_, ?_⟩
  -- all lines are texts
  · intro input texts h
    rw [outcome_of_splits h, hall]
    refine ⟨rfl, rfl, ?_⟩
    rw [Outcome.reportCount_after, countP_flatMap_reports]
    rfl
  -- there is a first one that is none
  · intro input texts bad after h hbad
    rw [outcome_of_splits h, run_lenient_append, run_cons_of_ne_utf8 hbad]
    exact ⟨rfl, rfl⟩
  · intro input
    have hsplits := splits_lines input
    rcases lines_cases (lines input) with ⟨texts, hlines⟩ | ⟨texts, bad, after, hlines, hbad⟩
    · exact .inl ⟨texts, hlines ▸ hsplits⟩
    · exact .inr ⟨texts, bad, after, hlines ▸ hsplits, hbad⟩
  -- the lines of both parts are those of the one and then those of the other
  · intro front back texts h hend
    have hboth := h.append_lines hend back
    refine ⟨transcript prompt texts, ?_, ?_, ?_⟩
    · rw [outcome_of_splits h, hall]
      rfl
    · rw [outcome_of_splits hboth, run_lenient_append]
      rfl
    · rw [outcome_of_splits hboth, run_lenient_append]
      rfl
  · exact Invocation.ofSession_prompt prompt []

open Session in
/-- A line with a value, a blank one and one that is no expression. -/
theorem default_session_three_lines :
    Splits (utf8 "1+1" ++ carriageReturn :: newline :: (utf8 "" ++ newline ::
        (utf8 "(" ++ newline :: []))) (["1+1", "", "("].map utf8) ∧
      ((lenient "> ").outcome (utf8 "1+1" ++ carriageReturn :: newline :: (utf8 "" ++ newline ::
        (utf8 "(" ++ newline :: [])))).output = "> 2.0\n> > > \n" ∧
      ((lenient "> ").outcome (utf8 "1+1" ++ carriageReturn :: newline :: (utf8 "" ++ newline ::
        (utf8 "(" ++ newline :: [])))).reportCount = 1 := by
  have hsplits : Splits (utf8 "1+1" ++ carriageReturn :: newline :: (utf8 "" ++ newline ::
      (utf8 "(" ++ newline :: []))) (["1+1", "", "("].map utf8) :=
    .returned (by decide +kernel) <| .ended (by decide +kernel) (by decide +kernel) <|
      .ended (by decide +kernel) (by decide +kernel) .nil
  obtain ⟨-, houtput, hcount⟩ := (default_session "> ").1 _ _ hsplits
  exact ⟨hsplits, houtput.trans (by decide +kernel), hcount.trans (by decide +kernel)⟩

end Reckoner
