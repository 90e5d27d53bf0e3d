import Reckoner.CommandLine
import Reckoner.Proofs.Blanks
import Reckoner.Proofs.Bytes.Calls
import Reckoner.Proofs.CorrectPrefix
import Reckoner.Proofs.Lines

/-!
# Diagnostics point at the text

Every failure names a part of the text that it is about, and this part is there: its ends are
boundaries between characters of the text, and what stands between them is what the failure speaks
of. Places are computed by the scanner alone. Readers and the evaluator pass on those of tokens.

## Main definitions

* `Token.StandsIn t text lexeme`: a token stands in a text as a lexeme;
* `GrammarError.IsAbout error t`: an error of a reader is about a token;
* `Failure.PointsAt text failure part`: a failure speaks of a part of the text;
* `Failure.Sound text failure`: what a failure speaks of stands at its span;
* `Command.Reads input c source`: a command reads the source.

## Main results

* `Failure.Sound.isValid`: the ends of the span of a sound failure are positions of the text;
* `Stream.part_of_stop_eq_failure`: an error that ends a stream is about a part of the text;
* `Stream.exists_standsIn`: tokens stand in the text;
* `exists_isAbout_of_parse_eq_error`: an error of a reader is about a token of the text;
* `Failure.sound_of_valueOf_eq_error`: a failure to find the value of a text is sound;
* `Scanner.sound_of_mem_run`: so are the errors that any calls of a scanner are answered with;
* `Command.reads_and_sound_of_mem_notices`: a command reports sound failures of what it reads;
* `report_sound`: all of these, with the source that a report names;
* `CommandLine.exists_reads_of_mem_notices`: so it is with whatever the program reports.
-/

namespace Reckoner

/-- The token stands in the text as the given lexeme, which is the longest one in its place. -/
def Token.StandsIn (t : Token) (text lexeme : List Char) : Prop :=
  ∃ before after, text = before ++ lexeme ++ after ∧
    t.span = ⟨utf8Length before, utf8Length lexeme⟩ ∧ Longest t.kind lexeme after

/-- The error is about the token: it names this one if it names a token, and is at its place. -/
def GrammarError.IsAbout (error : GrammarError) (t : Token) : Prop :=
  (∀ found ∈ error.found?, found = t) ∧ error.span = t.span

/-- What a failure speaks of is this part of the text. -/
inductive Failure.PointsAt (text : String) : Failure → List Char → Prop
  /-- An error of the scanner speaks of a character, of a decimal point or of a word. -/
  | lexical (error : LexicalError) : PointsAt text (.lexical error) error.part
  /-- An error of a reader speaks of a token, with all of its characters. -/
  | token {error : GrammarError} {t : Token} {lexeme : List Char}
      (hmem : t ∈ (Stream.ofText text).tokens) (habout : error.IsAbout t)
      (h : t.StandsIn text.toList lexeme) : PointsAt text (.grammar error) lexeme
  /-- An error of a reader speaks of the end of the text, which has no characters. -/
  | ending {error : GrammarError}
      (hmem : .endOfInput text.utf8ByteSize ∈ (Stream.ofText text).listing)
      (habout : error.IsAbout (.endOfInput text.utf8ByteSize)) : PointsAt text (.grammar error) []
  /-- An error of the evaluator speaks of an operator of integer division. -/
  | division {t : Token} (hmem : t ∈ (Stream.ofText text).tokens)
      (hkind : t.kind = .operator .floorDivide) :
      PointsAt text (.value (.divisionByZero t.span)) ['/', '/']

/-- What the failure speaks of stands in the text, at the span that it names. -/
def Failure.Sound (text : String) (failure : Failure) : Prop :=
  ∃ part, slice? failure.span text.toList = some part ∧ failure.PointsAt text part

/-- The ends of its span are valid positions of the text. -/
theorem Failure.Sound.isValid {text : String} {failure : Failure} (h : failure.Sound text) :
    String.Pos.Raw.IsValid text ⟨failure.span.offset⟩ ∧
      String.Pos.Raw.IsValid text ⟨failure.span.offset + failure.span.length⟩ := by
  obtain ⟨part, hslice, -⟩ := h
  obtain ⟨before, after, htext, hspan⟩ := slice?_eq_some_iff.1 hslice
  have hbegin : dropBytes? failure.span.offset text.toList = some (part ++ after) :=
    dropBytes?_eq_some_iff.2 ⟨before, by rw [htext, List.append_assoc], by rw [hspan]⟩
  have hend : dropBytes? (failure.span.offset + failure.span.length) text.toList = some after :=
    dropBytes?_eq_some_iff.2 ⟨before ++ part, htext, by rw [utf8Length_append, hspan]⟩
  exact ⟨isSome_dropBytes?_iff.1 (Option.isSome_of_eq_some hbegin),
    isSome_dropBytes?_iff.1 (Option.isSome_of_eq_some hend)⟩

/-! ### Errors of the scanner -/

/-- An error that ends a stream is about characters of the text. -/
theorem Stream.part_of_stop_eq_failure {text : String} {error : LexicalError}
    (h : (ofText text).stop = .failure error) :
    slice? error.span text.toList = some error.part := by
  rcases Cursor.failurePlace?_cases 0 text.toList with
    ⟨-, length, hwell⟩ | ⟨before, c, after, error', htext, -, -, herror, hfails⟩
  · cases h.symm.trans hwell
  · obtain rfl := Stop.failure.inj (h.symm.trans hfails)
    obtain ⟨between, behind, hrest, hspan⟩ := Lexeme.part_of_scan_eq_error herror
    refine slice?_eq_some_iff.2 ⟨before ++ between, behind, ?_, ?_⟩
    · rw [htext, hrest]
      simp
    · rw [hspan, utf8Length_append, Nat.zero_add]

/-! ### Tokens -/

namespace Stream

/-- Each token stands in the text from which it is read. -/
theorem exists_standsIn {text : String} {t : Token} (h : t ∈ (ofText text).tokens) :
    ∃ lexeme, t.StandsIn text.toList lexeme := by
  obtain ⟨before, blanks, lexeme, after, htext, hleads⟩ := exists_leads h
  refine ⟨lexeme, before ++ blanks, after, by simp [htext], ?_, hleads.longest⟩
  rw [hleads.span_eq, utf8Length_append, Nat.zero_add]

end Stream

/-- A token stands in the text at its span. -/
theorem Token.StandsIn.slice? {text lexeme : List Char} {t : Token} (h : t.StandsIn text lexeme) :
    Reckoner.slice? t.span text = some lexeme := by
  obtain ⟨before, after, htext, hspan, -⟩ := h
  exact slice?_eq_some_iff.2 ⟨before, after, htext, hspan⟩

/-! ### Failures of readers -/

/-- The places of a stream are those of its tokens, and its error is its own. -/
theorem Stream.related_self (s : Stream) :
    s.Related (fun span _ => ∃ t ∈ s.listing, span = t.span) (fun _ _ => True) s := by
  constructor
  · refine List.forall₂_same.2 fun t ht => ⟨rfl, rfl, t, ?_, rfl⟩
    exact List.mem_append_left _ ht
  · obtain ⟨ts, stop⟩ := s
    cases stop with
    | failure error => exact .failure trivial
    | endOfInput length =>
      exact .endOfInput ⟨.endOfInput length, List.mem_append_right _ (.head _), rfl⟩

/-- A limit is passed at a token. -/
theorem Stream.exists_span_of_tooDeep {s : Stream} {span : Span}
    (h : s.parse.result = .error (.grammar (.tooDeep span))) :
    ∃ t ∈ s.listing, span = t.span := by
  -- readers get no place but from the tokens, as they read alike wherever those stand
  rcases s.related_self.parse_cases with ⟨e, _, hok, -⟩ | ⟨failure, _, herror, -, hrelated⟩
  · cases h.symm.trans hok
  · obtain rfl := Except.error.inj (h.symm.trans herror)
    cases hrelated with
    | grammar halike =>
      cases halike with
      | tooDeep hspan => exact hspan

/-- A reader passes an error of the scanner on, and its own errors are about tokens. -/
theorem exists_isAbout_of_parse_eq_error {text : String} {failure : Failure}
    (h : (parse text).result = .error failure) :
    (∃ error, failure = .lexical error ∧ (Stream.ofText text).stop = .failure error) ∨
      ∃ error, failure = .grammar error ∧ ∃ t ∈ (Stream.ofText text).listing, error.IsAbout t := by
  obtain ⟨ts, rest, outlook, hs, -, hrefuses⟩ := exists_refuses_of_parse_eq_error h
  cases hrefuses with
  | @lexical error hhead =>
    obtain rfl := Stream.eq_of_head_error hhead
    exact .inl ⟨error, rfl, hs ▸ rfl⟩
  | @grammar found hhead hstep hend =>
    have hfound := outlook.found?_complaint found
    obtain ⟨us, hlisting⟩ := Stream.listing_of_head hhead
    refine .inr ⟨_, rfl, found, ?_, ?_, GrammarError.span_of_found? hfound⟩
    · rw [hs, Stream.listing_behind, hlisting]
      simp
    · rw [hfound]
      rintro _ ⟨⟩
      rfl
  | tooDeep span =>
    obtain ⟨t, hmem, hspan⟩ := Stream.exists_span_of_tooDeep h
    exact .inr ⟨_, rfl, t, hmem, nofun, hspan⟩

/-- The end of a text has the size of the text for its place. -/
theorem Stream.length_of_stop_eq_endOfInput {text : String} {length : Nat}
    (h : (ofText text).stop = .endOfInput length) : length = text.utf8ByteSize := by
  have hs : scanFrom [] ⟨0, text.toList⟩ = ⟨(ofText text).tokens, .endOfInput length⟩ :=
    h ▸ rfl
  rw [(scanFrom_eq_iff_cut.1 hs).2, utf8Length_toList, Nat.zero_add]

/-- Nothing stands at the end of a text. -/
theorem slice?_end (text : String) : slice? ⟨text.utf8ByteSize, 0⟩ text.toList = some [] := by
  refine slice?_eq_some_iff.2 ⟨text.toList, [], by simp, ?_⟩
  rw [utf8Length_toList, utf8Length_nil]

/-- A failure to read a text is sound. -/
theorem Failure.sound_of_parse_eq_error {text : String} {failure : Failure}
    (h : (parse text).result = .error failure) : failure.Sound text := by
  rcases exists_isAbout_of_parse_eq_error h with
    ⟨error, rfl, hstop⟩ | ⟨error, rfl, t, hmem, habout⟩
  · exact ⟨error.part, Stream.part_of_stop_eq_failure hstop, .lexical error⟩
  · rcases List.mem_append.1 hmem with htoken | hending
    · obtain ⟨lexeme, hstands⟩ := Stream.exists_standsIn htoken
      have hslice := (congrArg (slice? · text.toList) habout.2).trans hstands.slice?
      exact ⟨lexeme, hslice, .token htoken habout hstands⟩
    · -- only the end of the text comes behind the tokens
      rw [Stream.ending] at hending
      split at hending
      next length hstop =>
        obtain rfl := List.mem_singleton.1 hending
        obtain rfl := Stream.length_of_stop_eq_endOfInput hstop
        have hslice := (congrArg (slice? · text.toList) habout.2).trans (slice?_end text)
        exact ⟨[], hslice, .ending hmem habout⟩
      next => cases hending

/-! ### Failures of the evaluator -/

/-- The token of a node is one of the tree. -/
theorem Expr.mem_inorder_of_mem_nodes {e : Expr} {shape : Shape} {t : Token}
    (h : (shape, t) ∈ e.nodes) : t ∈ e.inorder := by
  induction e with
  | literal token => exact List.mem_singleton.2 (Prod.mk.inj (List.mem_singleton.1 h)).2
  | unary op e ih | application name e ih =>
    simp only [nodes, inorder, List.mem_cons, Prod.mk.injEq] at h ⊢
    exact h.imp And.right ih
  | binary op l r ihl ihr =>
    simp only [nodes, inorder, List.mem_cons, List.mem_append, Prod.mk.injEq] at h ⊢
    rcases h with ⟨-, rfl⟩ | hl | hr
    · exact .inr (.inl rfl)
    · exact .inl (ihl hl)
    · exact .inr (.inr (ihr hr))

/-- Each token of a tree is that of a node. -/
theorem Expr.exists_mem_nodes_of_mem_inorder {e : Expr} {t : Token} (h : t ∈ e.inorder) :
    ∃ shape, (shape, t) ∈ e.nodes := by
  induction e with
  | literal token => exact ⟨.literal, by simpa [nodes, inorder] using h⟩
  | unary op e ih =>
    rcases List.mem_cons.1 h with rfl | h
    · exact ⟨.unary, .head _⟩
    · exact (ih h).imp fun _ => .tail _
  | application name e ih =>
    rcases List.mem_cons.1 h with rfl | h
    · exact ⟨.application, .head _⟩
    · exact (ih h).imp fun _ => .tail _
  | binary op l r ihl ihr =>
    rcases List.mem_append.1 h with hl | hr
    · exact (ihl hl).imp fun _ hl => .tail _ (List.mem_append_left _ hl)
    · rcases List.mem_cons.1 hr with rfl | hr
      · exact ⟨.binary, .head _⟩
      · exact (ihr hr).imp fun _ hr => .tail _ (List.mem_append_right _ hr)

/-- The nodes of a tree that is read hold tokens of the text. -/
theorem mem_tokens_of_parse_eq_ok {text : String} {e : Expr} (h : (parse text).result = .ok e)
    {shape : Shape} {t : Token} (hmem : (shape, t) ∈ e.nodes) :
    t ∈ (Stream.ofText text).tokens := by
  obtain ⟨ts, length, n, hs, hderives, -⟩ := exists_derives_of_parse_eq_ok h
  have hinorder := Expr.mem_inorder_of_mem_nodes hmem
  rw [hderives.inorder_eq] at hinorder
  rw [hs]
  exact List.mem_of_mem_filter hinorder

/-- The only way to write an integer division is the one that it is printed in. -/
theorem Token.StandsIn.eq_floorDivide {text lexeme : List Char} {t : Token}
    (h : t.StandsIn text lexeme) (hkind : t.kind = .operator .floorDivide) :
    lexeme = ['/', '/'] := by
  obtain ⟨_, _, -, -, hlongest⟩ := h
  have hspells := hlongest.spells
  rw [hkind] at hspells
  cases hspells with
  | operator => rfl

/-- A failure to find the value of a text is sound. -/
theorem Failure.sound_of_valueOf_eq_error {text : String} {failure : Failure}
    (h : valueOf text = .error failure) : failure.Sound text := by
  cases hparse : (parse text).result with
  | error failure' =>
    rw [valueOf_of_parse_eq_error hparse] at h
    obtain rfl := Except.error.inj h
    exact sound_of_parse_eq_error hparse
  | ok e =>
    rw [valueOf_of_parse_eq_ok hparse] at h
    rcases (evaluable_of_parse_eq_ok hparse).value_cases with
      ⟨x, hx⟩ | ⟨t, hmem, hkind, herror⟩
    · rw [hx] at h
      cases h
    · rw [herror] at h
      obtain rfl := Except.error.inj h
      have htoken := mem_tokens_of_parse_eq_ok hparse hmem
      obtain ⟨lexeme, hstands⟩ := Stream.exists_standsIn htoken
      obtain rfl := hstands.eq_floorDivide hkind
      exact ⟨_, hstands.slice?, .division htoken hkind⟩

/-! ### Errors of any calls -/

/-- An error that a call of a scanner is answered with is sound. -/
theorem Scanner.sound_of_perform {text : String} {s : Scanner} (h : s.Placed text) {call : Call}
    {error : LexicalError} (herror : (s.perform call).1 = some (.error error)) :
    (Failure.lexical error).Sound text := by
  rcases s.perform_cases call with ⟨-, -, hperform⟩ | ⟨finished, hperform⟩
  · rw [hperform] at herror
    cases herror
  · -- the error is one of the rest, behind what has been read before
    rw [hperform] at herror
    obtain ⟨read, htext, hread⟩ := dropBytes?_eq_some_iff.1 h
    have hscan : (⟨s.cursor.offset, s.cursor.rest⟩ : Cursor).scan =
        (.error error, s.cursor.scan.2) := Prod.ext (Option.some.inj herror) rfl
    obtain ⟨before, after, hrest, hspan⟩ := Cursor.part_of_scan_eq_error hscan
    refine ⟨error.part, slice?_eq_some_iff.2 ⟨read ++ before, after, ?_, ?_⟩, .lexical error⟩
    · rw [htext, hrest]
      simp
    · rw [utf8Length_append, hread]
      exact hspan

/-- So are all errors that calls of a scanner are answered with, also behind other errors. -/
theorem Scanner.sound_of_mem_run {text : String} {s : Scanner} (h : s.Placed text)
    {calls : List Call} {error : LexicalError} (hmem : some (.error error) ∈ (s.run calls).1) :
    (Failure.lexical error).Sound text := by
  induction calls generalizing s with
  | nil => cases hmem
  | cons call calls ih =>
    rw [run_cons] at hmem
    rcases List.mem_cons.1 hmem with hhead | htail
    · exact sound_of_perform h hhead.symm
    · exact ih (h.perform call) htail

/-! ### Reports of the program -/

/-- A run that stops since a text has no value reports this one failure. -/
theorem Outcome.eq_of_mem_ofFailure {output : String} {source source' : Source}
    {failure failure' : Failure}
    (h : .report source failure ∈ (ofFailure output source' failure').notices) :
    source = source' ∧ failure = failure' := by
  simpa [ofFailure] using h

/-- What is said about a line without a value is said of the text that the line is, and is sound. -/
theorem Answer.sound_of_ofLine {line : List UInt8} {source : Source} {failure : Failure}
    (h : ofLine line = .noValue source failure) :
    source.name? = some sessionSource ∧ line = utf8 source.text ∧ failure.Sound source.text := by
  rw [ofLine] at h
  split at h
  next => cases h
  next text hread =>
    split at h
    next => cases h
    next =>
      split at h
      next => cases h
      next failure' hvalue =>
        cases h
        exact ⟨rfl, (utf8_of_fromUTF8? hread).symm, Failure.sound_of_valueOf_eq_error hvalue⟩

namespace Session

/-- What is said when a session reacts. -/
def Reaction.notices : Reaction → List Notice
  | .continue _ notices => notices
  | .stop outcome => outcome.notices

/-- Only lines without a value are reported. -/
theorem eq_noValue_of_mem_react {session : Session} {answer : Answer} {source : Source}
    {failure : Failure} (h : .report source failure ∈ (session.react answer).notices) :
    answer = .noValue source failure := by
  cases answer with
  | blank | value x => cases h
  | unreadable => simp [react, Reaction.notices] at h
  | noValue source' failure' =>
    rw [react] at h
    split at h
    · obtain ⟨rfl, rfl⟩ := Outcome.eq_of_mem_ofFailure h
      rfl
    · obtain ⟨rfl, rfl⟩ := Notice.report.inj (List.mem_singleton.1 h)
      rfl

/-- What a session says is said when it reacts to a line, or about the lines behind. -/
theorem mem_notices_run_cons {session : Session} {line : List UInt8} {rest : List (List UInt8)}
    {notice : Notice} (h : notice ∈ (session.run (line :: rest)).notices) :
    notice ∈ (session.react (.ofLine line)).notices ∨ notice ∈ (session.run rest).notices := by
  rw [run] at h
  generalize session.react (.ofLine line) = reaction at h ⊢
  cases reaction with
  | «continue» output notices => exact List.mem_append.1 h
  | stop outcome => exact .inl h

/-- Whatever a session reports, it says of one of the lines. -/
theorem exists_ofLine_of_mem_notices {session : Session} {input : List (List UInt8)}
    {source : Source} {failure : Failure}
    (h : .report source failure ∈ (session.run input).notices) :
    ∃ line ∈ input, Answer.ofLine line = .noValue source failure := by
  induction input with
  | nil => cases h
  | cons line rest ih =>
    rcases mem_notices_run_cons h with hreact | hrest
    · exact ⟨line, .head _, eq_noValue_of_mem_react hreact⟩
    · obtain ⟨line', hmem, hline⟩ := ih hrest
      exact ⟨line', .tail _ hmem, hline⟩

end Session

theorem Stream.failure?_eq_some_iff {s : Stream} {error : LexicalError} :
    s.failure? = some error ↔ s.stop = .failure error := by
  rw [failure?]
  cases s.stop <;> simp

/-- The error that keeps a stream from its end is sound. -/
theorem Failure.sound_of_failure? {text : String} {error : LexicalError}
    (h : (Stream.ofText text).failure? = some error) : (Failure.lexical error).Sound text := by
  exact ⟨_, Stream.part_of_stop_eq_failure (Stream.failure?_eq_some_iff.1 h), .lexical error⟩

/-- A command reads the expression that it is given, or the lines of the input one by one. -/
inductive Command.Reads (input : List UInt8) : Command → Source → Prop
  | repl {session : Session} {text : String} (h : utf8 text ∈ lines input) :
      Reads input (.repl session) ⟨some sessionSource, text⟩
  | eval (expression : String) : Reads input (.eval expression) (argumentSource expression)
  | tokenize (expression : String) : Reads input (.tokenize expression) (argumentSource expression)
  | parse (expression : String) : Reads input (.parse expression) (argumentSource expression)

/-- Whatever a command reports is about a source that it reads, and is sound. -/
theorem Command.reads_and_sound_of_mem_notices {input : List UInt8} {c : Command} {source : Source}
    {failure : Failure} (h : .report source failure ∈ (c.run input).notices) :
    c.Reads input source ∧ failure.Sound source.text := by
  cases c with
  | repl session =>
    obtain ⟨line, hmem, hline⟩ := Session.exists_ofLine_of_mem_notices h
    obtain ⟨hname, rfl, hsound⟩ := Answer.sound_of_ofLine hline
    obtain ⟨name?, text⟩ := source
    obtain rfl := hname
    exact ⟨.repl hmem, hsound⟩
  | eval expression =>
    rw [run] at h
    split at h
    next => cases h
    next failure' hvalue =>
      obtain ⟨rfl, rfl⟩ := Outcome.eq_of_mem_ofFailure h
      exact ⟨.eval expression, Failure.sound_of_valueOf_eq_error hvalue⟩
  | tokenize expression =>
    simp only [run] at h
    split at h
    next => cases h
    next error herror =>
      obtain ⟨rfl, rfl⟩ := Outcome.eq_of_mem_ofFailure h
      exact ⟨.tokenize expression, Failure.sound_of_failure? herror⟩
  | parse expression =>
    rw [run] at h
    split at h
    next => cases h
    next failure' hparse =>
      obtain ⟨rfl, rfl⟩ := Outcome.eq_of_mem_ofFailure h
      exact ⟨.parse expression, Failure.sound_of_parse_eq_error hparse⟩

/-- Whatever a source is called and whatever it says: what a failure to find its value speaks of
stands there. So it is with all reports that its scanner answers any calls with, in any order, also
beyond errors and the end, and these name the source. By bytes, no such call fails. What is said
about a line without a value is said of the whole line, and what a command reports, of a source that
it reads. -/
theorem report_sound (source : Source) :
    (∀ failure, valueOf source.text = .error failure → failure.Sound source.text) ∧
    (∀ calls, ∃ answers last, (ByteScanner.ofSource source).run? calls = some (answers, last) ∧
      ∀ report, some (.error report) ∈ answers →
        report.source = source ∧ report.failure.Sound source.text) ∧
    (∀ line failure, Answer.ofLine line = .noValue source failure →
      source.name? = some sessionSource ∧ line = utf8 source.text ∧ failure.Sound source.text) ∧
    ∀ (c : Command) (input : List UInt8) (failure : Failure),
      .report source failure ∈ (c.run input).notices →
        c.Reads input source ∧ failure.Sound source.text := by
  refine ⟨fun _ => Failure.sound_of_valueOf_eq_error, fun calls => ?_,
    fun _ _ => Answer.sound_of_ofLine, fun _ _ _ => Command.reads_and_sound_of_mem_notices⟩
  have hplaced := Scanner.placed_ofText source.text
  refine ⟨_, _, ByteScanner.run?_eq hplaced calls, fun report hmem => ?_⟩
  obtain ⟨reply, hreply, heq⟩ := List.mem_map.1 hmem
  match reply with
  | none => cases heq
  | some (.ok token) => cases heq
  | some (.error error) =>
    obtain rfl : ⟨source, .lexical error⟩ = report := Except.error.inj (Option.some.inj heq)
    exact ⟨rfl, Scanner.sound_of_mem_run hplaced hreply⟩

/-- An unknown word behind a letter of two bytes is found at its place, and the command that looks
for the value of the expression says so. -/
theorem report_sound_unknown_word :
    let source := Command.argumentSource "(2 * é"
    let failure := Failure.lexical (.unknownWord "é" 5)
    valueOf source.text = .error failure ∧ failure.Sound source.text ∧
      .report source failure ∈ ((Command.eval source.text).run []).notices ∧
      (Command.eval source.text).Reads [] source := by
  intro source failure
  have hvalue : valueOf source.text = .error failure := by decide +kernel
  have hreport : .report source failure ∈ ((Command.eval source.text).run []).notices := by
    rw [Command.run, hvalue]
    exact .tail _ (.head _)
  obtain ⟨hsound, -, -, hcommand⟩ := report_sound source
  exact ⟨hvalue, hsound failure hvalue, hreport, (hcommand _ [] failure hreport).1⟩

/-- Whatever the program reports is about a source that the command reads which its arguments ask
for, and is sound. -/
theorem CommandLine.exists_reads_of_mem_notices {cl : CommandLine} {arguments : List String}
    {input : List UInt8} {source : Source} {failure : Failure}
    (h : .report source failure ∈ (cl.run arguments input).notices) :
    ∃ c, cl.invocation arguments = .command c ∧ c.Reads input source ∧
      failure.Sound source.text := by
  rw [run] at h
  split at h
  next c hc => exact ⟨c, hc, Command.reads_and_sound_of_mem_notices h⟩
  next => cases h
  next => cases h
  next => simp at h

end Reckoner
