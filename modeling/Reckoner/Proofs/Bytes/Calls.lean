import Mathlib.Data.List.ReduceOption
import Reckoner.Proofs.Bytes.Agreement
import Reckoner.Proofs.Places

/-!
# Calls of a scanner

A scanner can be asked for the next token in two ways, which share its place in the text: `pull`
reads on whatever has been read before, and `next?` is an iterator that ends. What is proved here
holds of all sequences of such calls, in any order, and also beyond errors and the end of the text.

## Main definitions

* `Call`: a way to ask for the next token;
* `Scanner.run`, `ByteScanner.run?`: the answers to a sequence of calls.

## Main results

* `Cursor.moves_scan`: how reading a token moves the place;
* `ByteScanner.run?_eq`: by bytes, no call fails and the answers are the same;
* `Scanner.finished_run_iff`: the iterator ends by answers of its own only;
* `Scanner.run_erased`: without the calls that read nothing, the answers are those to as many pulls;
* `Scanner.run_contract`: all that holds of a scanner after any calls.
-/

namespace Reckoner

/-- A way to ask a scanner for the next token. -/
inductive Call where
  /-- The next token is read in any case. -/
  | pull
  /-- The next token is read unless the iterator has ended. -/
  | next
  deriving DecidableEq, Repr

/-- What is answered to a call, if anything is. -/
abbrev Reply := Option (Except LexicalError Token)

namespace Scanner

/-- The answer of a scanner to a call. -/
def perform (s : Scanner) : Call → Reply × Scanner
  | .pull => (some s.pull.1, s.pull.2)
  | .next => s.next?

/-- The answers of a scanner to calls, one after another, and what becomes of it. -/
def run (s : Scanner) : List Call → List Reply × Scanner
  | [] => ([], s)
  | call :: calls =>
    let (reply, next) := s.perform call
    let (replies, last) := next.run calls
    (reply :: replies, last)

end Scanner

/-- An answer with the source of the text. -/
def Reply.inSource (source : Source) (reply : Reply) : Option (Except Report Token) :=
  reply.map fun answer => answer.mapError fun error => ⟨source, .lexical error⟩

namespace ByteScanner

/-- The answer of a scanner to a call. -/
def perform? (s : ByteScanner) : Call → Option (Option (Except Report Token) × ByteScanner)
  | .pull => do
    let (answer, next) ← s.scan?
    return (some answer, next)
  | .next => s.next?

/-- The answers of a scanner to calls, one after another, and what becomes of it. -/
def run? (s : ByteScanner) :
    List Call → Option (List (Option (Except Report Token)) × ByteScanner)
  | [] => some ([], s)
  | call :: calls => do
    let (reply, next) ← s.perform? call
    let (replies, last) ← next.run? calls
    return (reply :: replies, last)

/-- A scanner of a source, with its place in bytes. -/
def ofScanner (source : Source) (s : Scanner) : ByteScanner :=
  ⟨source, s.cursor.rest, s.cursor.offset, s.finished⟩

end ByteScanner

namespace Cursor

variable {offset : Nat} {text : List Char} {next : Cursor}

/-- Reading never leaves the text: what has been passed is a beginning of it. -/
theorem exists_passed {answer : Except LexicalError Token}
    (h : (⟨offset, text⟩ : Cursor).scan = (answer, next)) :
    ∃ passed, text = passed ++ next.rest ∧ next.offset = offset + utf8Length passed := by
  cases answer with
  | error error =>
    obtain ⟨blanks, c, htext, -, -, -, hoffset⟩ := passes_of_scan_eq_error h
    exact ⟨blanks ++ [c], by rw [htext, List.append_assoc, List.singleton_append], hoffset⟩
  | ok token =>
    rcases leads_of_scan_eq_ok h with ⟨hblank, rfl⟩ | ⟨blanks, lexeme, after, rfl, -, rfl⟩
    · rw [scan_of_blank hblank] at h
      obtain ⟨-, rfl⟩ := Prod.mk.inj h
      exact ⟨text, (List.append_nil text).symm, rfl⟩
    · exact ⟨blanks ++ lexeme, rfl, rfl⟩

/-- How a reply moves a place in a text of `length` bytes. -/
inductive Moves (length : Nat) : Cursor → Reply → Cursor → Prop
  /-- Without an answer the place stays. -/
  | stay (cursor : Cursor) : Moves length cursor none cursor
  /-- The end of the text comes behind the last blanks, and has the size of the text for its
  place. -/
  | ending {offset : Nat} {blanks : List Char} (h : ∀ c ∈ blanks, isBlank c) :
      Moves length ⟨offset, blanks⟩ (some (.ok (.endOfInput length))) ⟨length, []⟩
  /-- Any other token has a character at least. It is passed, with the blanks in front. -/
  | token {offset : Nat} {blanks lexeme after : List Char} {token : Token}
      (hkind : token.kind ≠ .endOfInput) (hne : lexeme ≠ [])
      (h : token.Leads offset blanks lexeme after) :
      Moves length ⟨offset, blanks ++ lexeme ++ after⟩ (some (.ok token))
        ⟨offset + utf8Length (blanks ++ lexeme), after⟩
  /-- An error is one of the first character that is no blank. Only this one is passed, with the
  blanks in front. -/
  | error {offset : Nat} {blanks after : List Char} {c : Char} {error : LexicalError}
      (hblanks : ∀ b ∈ blanks, isBlank b) (hc : ¬isBlank c)
      (h : Lexeme.scan (offset + utf8Length blanks) c after = .error error) :
      Moves length ⟨offset, blanks ++ c :: after⟩ (some (.error error))
        ⟨offset + utf8Length (blanks ++ [c]), after⟩

/-- Reading moves the place in such a way, if the place goes with the size of the text. -/
theorem moves_scan {length : Nat} (hlength : offset + utf8Length text = length) :
    Moves length ⟨offset, text⟩ (some (⟨offset, text⟩ : Cursor).scan.1)
      (⟨offset, text⟩ : Cursor).scan.2 := by
  rcases hscan : (⟨offset, text⟩ : Cursor).scan with ⟨error | token, ⟨place, rest⟩⟩
  · obtain ⟨blanks, c, rfl, hblanks, hc, herror, rfl⟩ := passes_of_scan_eq_error hscan
    exact .error hblanks hc herror
  · rcases leads_of_scan_eq_ok hscan with ⟨hblank, -⟩ | ⟨blanks, lexeme, after, rfl, hleads, hnext⟩
    · rw [scan_of_blank hblank, hlength] at hscan
      cases hscan
      exact .ending hblank
    · rw [hnext]
      exact .token hleads.longest.spells.ne_endOfInput hleads.longest.spells.ne_nil hleads

end Cursor

namespace Scanner

variable {s : Scanner} {text : String}

/-! ### One call -/

theorem perform_pull (s : Scanner) :
    s.perform .pull = (some s.cursor.scan.1, ⟨s.cursor.scan.2, s.finished⟩) := rfl

theorem perform_next_of_finished (h : s.finished) : s.perform .next = (none, s) := if_pos h

theorem perform_next_of_unfinished (h : ¬s.finished) :
    s.perform .next = (some s.cursor.scan.1, ⟨s.cursor.scan.2, isLast s.cursor.scan.1⟩) :=
  if_neg h

/-- There is no answer to a call of an iterator that has ended, and any other call reads. -/
theorem perform_cases (s : Scanner) (call : Call) :
    (call = .next ∧ s.finished ∧ s.perform call = (none, s)) ∨
      ∃ finished, s.perform call = (some s.cursor.scan.1, ⟨s.cursor.scan.2, finished⟩) := by
  cases call with
  | pull => exact .inr ⟨_, perform_pull s⟩
  | next =>
    by_cases h : s.finished
    · exact .inl ⟨rfl, h, perform_next_of_finished h⟩
    · exact .inr ⟨_, perform_next_of_unfinished h⟩

/-- The rest is what the text has behind the place. -/
def Placed (text : String) (s : Scanner) : Prop :=
  dropBytes? s.cursor.offset text.toList = some s.cursor.rest

theorem placed_ofText (text : String) : (ofText text).Placed text :=
  dropBytes?_eq_some_iff.2 ⟨[], rfl, rfl⟩

/-- A call leaves the place at a boundary between two characters. -/
theorem Placed.perform (h : s.Placed text) (call : Call) : (s.perform call).2.Placed text := by
  rcases s.perform_cases call with ⟨-, -, hperform⟩ | ⟨finished, hperform⟩
  · rw [hperform]
    exact h
  · obtain ⟨before, htext, hbefore⟩ := dropBytes?_eq_some_iff.1 h
    obtain ⟨passed, hrest, hoffset⟩ := Cursor.exists_passed (Prod.mk.eta (p := s.cursor.scan)).symm
    rw [hperform]
    refine dropBytes?_eq_some_iff.2 ⟨before ++ passed, ?_, ?_⟩
    · rw [htext, hrest, List.append_assoc]
    · rw [utf8Length_append, hbefore]
      exact hoffset.symm

/-- What has been read and what is left have the size of the text. -/
theorem Placed.size_eq (h : s.Placed text) :
    s.cursor.offset + utf8Length s.cursor.rest = text.utf8ByteSize := by
  obtain ⟨before, htext, hbefore⟩ := dropBytes?_eq_some_iff.1 h
  rw [← hbefore, ← utf8Length_append, ← htext, utf8Length_toList]

theorem Placed.moves (h : s.Placed text) (call : Call) :
    s.cursor.Moves text.utf8ByteSize (s.perform call).1 (s.perform call).2.cursor := by
  rcases s.perform_cases call with ⟨-, -, hperform⟩ | ⟨finished, hperform⟩
  · rw [hperform]
    exact .stay _
  · rw [hperform]
    exact Cursor.moves_scan h.size_eq

/-- There is no answer to a call of an iterator that has ended, and only then. -/
theorem perform_eq_none_iff {call : Call} :
    (s.perform call).1 = none ↔ call = .next ∧ s.finished := by
  cases call with
  | pull => simp [perform_pull]
  | next =>
    by_cases h : s.finished
    · simp [perform_next_of_finished h, h]
    · simp [perform_next_of_unfinished h, h]

/-- At the end of the text the end is read, and the place stays. -/
theorem scan_of_rest_eq_nil (hrest : s.cursor.rest = []) :
    s.cursor.scan = (.ok (.endOfInput s.cursor.offset), s.cursor) := by
  have hcursor : s.cursor = ⟨s.cursor.offset, []⟩ := by rw [← hrest]
  rw [hcursor]
  exact Cursor.scan_of_blank (by simp)

theorem rest_perform_eq_nil (h : s.cursor.rest = []) (call : Call) :
    (s.perform call).2.cursor.rest = [] := by
  rcases s.perform_cases call with ⟨-, -, hperform⟩ | ⟨finished, hperform⟩
  · rw [hperform]
    exact h
  · rw [hperform, scan_of_rest_eq_nil h]
    exact h

/-- A call ends the iterator if it is one of the iterator and the answer is the last one. -/
theorem finished_perform_iff (s : Scanner) (call : Call) :
    (s.perform call).2.finished ↔ s.finished ∨
      call = .next ∧ ∃ answer, (s.perform call).1 = some answer ∧ isLast answer := by
  cases call with
  | pull => simp [perform_pull]
  | next =>
    by_cases h : s.finished
    · simp [perform_next_of_finished h, h]
    · simp [perform_next_of_unfinished h, h]

/-! ### Sequences of calls -/

theorem run_cons (s : Scanner) (call : Call) (calls : List Call) :
    s.run (call :: calls) =
      ((s.perform call).1 :: ((s.perform call).2.run calls).1,
        ((s.perform call).2.run calls).2) := rfl

theorem Placed.run (h : s.Placed text) (calls : List Call) : (s.run calls).2.Placed text := by
  induction calls generalizing s with
  | nil => exact h
  | cons call calls ih => exact ih (h.perform call)

/-- The iterator ends by an error or the end of the text that it has answered itself. -/
theorem finished_run_iff (s : Scanner) (calls : List Call) :
    (s.run calls).2.finished ↔ s.finished ∨
      ∃ answer, (Call.next, some answer) ∈ calls.zip (s.run calls).1 ∧ isLast answer := by
  induction calls generalizing s with
  | nil => simp [run]
  | cons call calls ih =>
    rw [run_cons, List.zip_cons_cons, ih, finished_perform_iff, or_assoc]
    refine or_congr_right ?_
    simp only [List.mem_cons, Prod.mk.injEq, or_and_right, exists_or]
    refine or_congr_left ⟨?_, ?_⟩
    · rintro ⟨rfl, answer, hanswer, hlast⟩
      exact ⟨answer, ⟨rfl, hanswer.symm⟩, hlast⟩
    · rintro ⟨answer, ⟨rfl, hanswer⟩, hlast⟩
      exact ⟨rfl, answer, hanswer.symm, hlast⟩

/-- Without the calls that read nothing, the answers are those to as many pulls. -/
theorem run_erased (s : Scanner) (calls : List Call) (finished : Bool) :
    (⟨s.cursor, finished⟩ : Scanner).run
        (.replicate (s.run calls).1.reduceOption.length .pull) =
      ((s.run calls).1.reduceOption.map some, ⟨(s.run calls).2.cursor, finished⟩) := by
  induction calls generalizing s with
  | nil => rfl
  | cons call calls ih =>
    rw [run_cons]
    rcases s.perform_cases call with ⟨-, -, hperform⟩ | ⟨finished', hperform⟩
    · rw [hperform, List.reduceOption_cons_of_none]
      exact ih s
    · -- the first pull reads what the call reads, and the others go on from the same place
      have hrest := ih ⟨s.cursor.scan.2, finished'⟩
      rw [hperform, List.reduceOption_cons_of_some, List.length_cons, List.replicate_succ,
        run_cons, perform_pull, hrest]
      rfl

/-- Where nothing is left, nothing is left after any calls. -/
theorem rest_run_eq_nil (h : s.cursor.rest = []) (calls : List Call) :
    (s.run calls).2.cursor.rest = [] := by
  induction calls generalizing s with
  | nil => exact h
  | cons call calls ih =>
    rw [run_cons]
    exact ih (rest_perform_eq_nil h call)

/-- Once the end of the text has been answered, nothing is left. -/
theorem rest_run_of_endOfInput (s : Scanner) (calls : List Call) {token : Token}
    (hmem : some (.ok token) ∈ (s.run calls).1) (hkind : token.kind = .endOfInput) :
    (s.run calls).2.cursor.rest = [] := by
  induction calls generalizing s with
  | nil => cases hmem
  | cons call calls ih =>
    rw [run_cons] at hmem ⊢
    rcases List.mem_cons.1 hmem with hhead | htail
    · -- the end is read where only blanks are left, and those are passed
      refine rest_run_eq_nil ?_ calls
      rcases s.perform_cases call with ⟨-, -, hperform⟩ | ⟨finished, hperform⟩
      · rw [hperform] at hhead
        cases hhead
      · rw [hperform] at hhead ⊢
        have hscan : s.cursor.scan = (.ok token, s.cursor.scan.2) :=
          Prod.ext (Option.some.inj hhead).symm rfl
        rcases Cursor.leads_of_scan_eq_ok hscan with ⟨hblank, -⟩ | ⟨_, _, _, -, hleads, -⟩
        · have hend := @Cursor.scan_of_blank s.cursor.offset _ hblank
          exact congrArg (fun result => result.2.rest) hend
        · exact absurd hkind hleads.longest.spells.ne_endOfInput
    · exact ih _ htail

end Scanner

namespace ByteScanner

variable {source : Source} {s : Scanner}

theorem isLast_mapError (source : Source) (answer : Except LexicalError Token) :
    isLast (answer.mapError fun error => ⟨source, .lexical error⟩) = Scanner.isLast answer := by
  cases answer <;> rfl

/-- A call is answered by bytes as it is answered otherwise. -/
theorem perform?_eq (h : s.Placed source.text) (call : Call) :
    (ofScanner source s).perform? call =
      some ((s.perform call).1.inSource source, ofScanner source (s.perform call).2) := by
  have hscan : (ofScanner source s).scan? =
      some (s.cursor.scan.1.mapError fun error => ⟨source, .lexical error⟩,
        ⟨source, s.cursor.scan.2.rest, s.cursor.scan.2.offset, s.finished⟩) := scan?_eq h
  cases call with
  | pull =>
    rw [perform?, hscan]
    rfl
  | next =>
    rw [perform?, next?]
    by_cases hfinished : s.finished
    · rw [Scanner.perform_next_of_finished hfinished]
      exact if_pos hfinished
    · rw [Scanner.perform_next_of_unfinished hfinished, hscan]
      refine (if_neg hfinished).trans ?_
      simp only [Option.bind_eq_bind, Option.bind_some, isLast_mapError, Option.pure_def,
        Reply.inSource, Option.map_some, ofScanner]
      cases Scanner.isLast s.cursor.scan.1 <;> simp [hfinished]

/-- No sequence of calls fails by bytes, and all are answered as they are otherwise. -/
theorem run?_eq (h : s.Placed source.text) (calls : List Call) :
    (ofScanner source s).run? calls =
      some ((s.run calls).1.map (Reply.inSource source), ofScanner source (s.run calls).2) := by
  induction calls generalizing s with
  | nil => rfl
  | cons call calls ih =>
    simp only [run?, perform?_eq h, Option.bind_eq_bind, Option.bind_some, ih (h.perform call)]
    rfl

end ByteScanner

namespace Scanner

/-- What holds after any calls of a scanner, in any order, also beyond errors and the end.

By bytes, no cut and no subtraction has failed on the way: the place is a boundary between two
characters of the text, and the rest is what the text has behind it. Without the calls that were
not answered, the answers are those of a new scanner to as many pulls.

The next call moves the place by the blanks in front and a token or, at an error, one character. It
has no answer if it is one of the iterator and an earlier one of the iterator was answered with an
error or the end of the text. Behind an answer with the end of the text, each pull answers the end.
Any pull answers what a new scanner of the rest answers, so much further back as the rest stands. -/
theorem run_contract (source : Source) (calls : List Call) :
    let replies := ((ofText source.text).run calls).1
    let s := ((ofText source.text).run calls).2
    (ByteScanner.ofSource source).run? calls =
        some (replies.map (Reply.inSource source), .ofScanner source s) ∧
      dropBytes? s.cursor.offset source.text.toList = some s.cursor.rest ∧
      (ofText source.text).run (.replicate replies.reduceOption.length .pull) =
        (replies.reduceOption.map some, { s with finished := false }) ∧
      (∀ call,
        s.cursor.Moves source.text.utf8ByteSize (s.perform call).1 (s.perform call).2.cursor ∧
        ((s.perform call).1 = none ↔ call = .next ∧
          ∃ answer, (Call.next, some answer) ∈ calls.zip replies ∧ isLast answer)) ∧
      ((∃ token, some (.ok token) ∈ replies ∧ token.kind = .endOfInput) →
        s.pull = (.ok (.endOfInput source.text.utf8ByteSize), s)) ∧
      s.pull.1 = ((ofText (String.ofList s.cursor.rest)).pull.1.map
        (Token.moved s.cursor.offset)).mapError (LexicalError.moved s.cursor.offset) := by
  intro replies s
  have hplaced : s.Placed source.text := (placed_ofText source.text).run calls
  have hfinished := (ofText source.text).finished_run_iff calls
  refine ⟨ByteScanner.run?_eq (placed_ofText source.text) calls, hplaced,
    run_erased (ofText source.text) calls false, fun call => ⟨hplaced.moves call, ?_⟩, ?_, ?_⟩
  · rw [perform_eq_none_iff, hfinished]
    simp [ofText, replies]
  · rintro ⟨token, hmem, hkind⟩
    have hrest : s.cursor.rest = [] := rest_run_of_endOfInput _ calls hmem hkind
    have hsize := hplaced.size_eq
    rw [hrest, utf8Length_nil, Nat.add_zero] at hsize
    rw [pull, scan_of_rest_eq_nil hrest, hsize]
  · have hmoved := Cursor.scan_moved
      (Prod.mk.eta (p := (⟨0, s.cursor.rest⟩ : Cursor).scan)).symm s.cursor.offset
    have hstart : ofText (String.ofList s.cursor.rest) = ⟨⟨0, s.cursor.rest⟩, false⟩ := by
      rw [ofText, Cursor.start, String.toList_ofList]
    rw [Nat.zero_add] at hmoved
    rw [hstart]
    exact congrArg Prod.fst hmoved

end Scanner

end Reckoner
