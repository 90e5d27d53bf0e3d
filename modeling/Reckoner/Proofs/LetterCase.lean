import Mathlib.Data.List.TakeWhile
import Reckoner.Proofs.Bytes.Calls
import Reckoner.Proofs.Reading.Alike
import Reckoner.Proofs.Seams

/-!
# Letter case

The case of the letters of ASCII is insignificant. The scanner asks of a character only what it asks
of all of these letters alike, and compares names in upper case. So it does with a text in upper
case what it does with the text itself, but for the letters of a word that is none, which the error
repeats as they stand there. Two texts that differ in the case of letters are the same text in upper
case, and are therefore scanned, read and evaluated alike.

## Main definitions

* `Recased text text'`: the case of some letters has been changed, and nothing else;
* `LexicalError.Recased`, `Failure.Recased`: the same, but for the letters of an unknown word;
* `LexicalError.inUpperCase`, `Scanner.inUpperCase`, `Stream.inUpperCase`: what becomes of them when
  the text is put in upper case.

## Main results

* `recased_iff`: such texts are those that are the same in upper case;
* `Cursor.scan_inUpperCase`: one token of a text in upper case;
* `Scanner.run_inUpperCase` and `Stream.scanFrom_inUpperCase`: any calls, and all tokens;
* `letter_case_insignificant`: two texts that differ in the case of letters.
-/

namespace Reckoner

/-- The case of some letters of ASCII has been changed, and nothing else. -/
def Recased (text text' : List Char) : Prop :=
  List.Forall₂ (fun c d => d = c ∨ d = c.toUpper ∨ d = c.toLower) text text'

/-- The same error, but for the case of the letters of a word that is none. -/
inductive LexicalError.Recased : LexicalError → LexicalError → Prop
  | same (error : LexicalError) : Recased error error
  | unknownWord {word word' : String} (h : Reckoner.Recased word.toList word'.toList)
      (offset : Nat) : Recased (.unknownWord word offset) (.unknownWord word' offset)

/-- The same failure, but for the case of the letters of a word that is none. -/
inductive Failure.Recased : Failure → Failure → Prop
  | same (failure : Failure) : Recased failure failure
  | lexical {error error' : LexicalError} (h : error.Recased error') :
      Recased (.lexical error) (.lexical error')

/-! ### Characters -/

theorem toNat_toLower (c : Char) : c.toLower.toNat =
    if 65 ≤ c.toNat ∧ c.toNat ≤ 90 then c.toNat + 32 else c.toNat := by
  have hrange : (c.val ≥ 'A'.val ∧ c.val ≤ 'Z'.val) ↔ 65 ≤ c.toNat ∧ c.toNat ≤ 90 := Iff.rfl
  unfold Char.toLower
  simp only [hrange]
  split
  next h =>
    show (c.val + ('a'.val - 'A'.val)).toNat = _
    have hval : c.val.toNat = c.toNat := rfl
    have hdistance : ('a'.val - 'A'.val).toNat = 32 := rfl
    rw [UInt32.toNat_add]
    omega
  next => rfl

/-- A character is the same as another one in upper case if it is one of its cases. -/
theorem toUpper_eq_iff {c d : Char} :
    c.toUpper = d.toUpper ↔ d = c ∨ d = c.toUpper ∨ d = c.toLower := by
  simp only [← Char.toNat_inj, toNat_toUpper, toNat_toLower]
  -- the two alphabets are 32 apart and do not meet, which decides each case
  split_ifs <;> omega

theorem toUpper_toUpper (c : Char) : c.toUpper.toUpper = c.toUpper :=
  (toUpper_eq_iff.2 (.inr (.inl rfl))).symm

/-- Texts differ in the case of letters if they are the same in upper case. -/
theorem recased_iff {text text' : List Char} :
    Recased text text' ↔ text.map Char.toUpper = text'.map Char.toUpper := by
  unfold Recased
  rw [← List.forall₂_eq_eq_eq, List.forall₂_map_left_iff, List.forall₂_map_right_iff]
  simp only [toUpper_eq_iff]

/-- What is the same of all letters of ASCII is the same in upper case. -/
theorem apply_toUpper {α : Type} {f : Char → α} {a : α}
    (h : ∀ c : Char, 65 ≤ c.toNat ∧ c.toNat ≤ 90 ∨ 97 ≤ c.toNat ∧ c.toNat ≤ 122 → f c = a)
    (c : Char) : f c.toUpper = f c := by
  rcases toUpper_cases c with hsame | ⟨hlow, hhigh, hmoved⟩
  · rw [hsame]
  -- both the letter in lower case and the one in upper case are letters
  · rw [h c (.inr ⟨hlow, hhigh⟩), h c.toUpper (.inl (by omega))]

theorem isDigit_toUpper (c : Char) : c.toUpper.isDigit = c.isDigit := by
  apply apply_toUpper (a := false)
  intro c hc
  rw [← Bool.not_eq_true, isDigit_iff]
  omega

theorem isBlank_toUpper (c : Char) : isBlank c.toUpper = isBlank c := by
  apply apply_toUpper (a := false)
  intro c hc
  rw [← Bool.not_eq_true]
  exact not_isBlank_of_printed (by omega) (by omega)

theorem isLetter_toUpper (c : Char) : isLetter c.toUpper = isLetter c := by
  apply apply_toUpper (a := true)
  intro c hc
  have hupper := toNat_toUpper c
  apply isLetter_of_upper <;> split_ifs at hupper <;> omega

theorem utf8Size_toUpper (c : Char) : c.toUpper.utf8Size = c.utf8Size := by
  apply apply_toUpper (a := 1)
  intro c hc
  exact utf8Size_of_printed (by omega)

theorem isNumeral_toUpper (c : Char) : Lexeme.isNumeral c.toUpper = Lexeme.isNumeral c := by
  apply apply_toUpper (a := false)
  intro c hc
  rw [← Bool.not_eq_true, Lexeme.isNumeral_iff, isDigit_iff, ← Char.toNat_inj]
  show ¬(_ ∨ c.toNat = 46)
  omega

/-- A character that is no letter is the same in upper case. -/
theorem toUpper_of_not_isLetter {c : Char} (h : ¬isLetter c) : c.toUpper = c := by
  apply eq_of_toUpper
  by_contra hupper
  exact h (isLetter_of_upper (by omega) (by omega))

theorem takeWhile_toUpper {p : Char → Bool} (hp : ∀ c : Char, p c.toUpper = p c)
    (text : List Char) :
    (text.map Char.toUpper).takeWhile p = (text.takeWhile p).map Char.toUpper := by
  have hcomp : p ∘ Char.toUpper = p := funext hp
  rw [List.takeWhile_map, hcomp]

theorem utf8Length_toUpper (text : List Char) :
    utf8Length (text.map Char.toUpper) = utf8Length text := by
  induction text with
  | nil => rfl
  | cons c text ih => rw [List.map_cons, utf8Length_cons, utf8Length_cons, utf8Size_toUpper, ih]

/-! ### One token -/

/-- The error when the text is put in upper case. -/
def LexicalError.inUpperCase : LexicalError → LexicalError
  | .unknownWord word offset => .unknownWord word.toUpper offset
  | error => error

/-- Errors that are the same in upper case differ in the letters of a word at most. -/
theorem LexicalError.recased_iff {error error' : LexicalError} :
    error.Recased error' ↔ error.inUpperCase = error'.inUpperCase := by
  have hword : ∀ word word' : String, Reckoner.Recased word.toList word'.toList ↔
      word.toUpper = word'.toUpper := by
    intro word word'
    unfold String.toUpper
    rw [Reckoner.recased_iff, ← String.toList_inj, String.toList_map, String.toList_map]
  constructor
  · intro h
    cases h with
    | same => rfl
    | unknownWord h offset => rw [inUpperCase, inUpperCase, (hword _ _).1 h]
  · intro h
    cases error with
    | strayCharacter | malformedNumeral | halfOperator =>
      -- upper case changes none of these, so the errors have been the same before
      cases error' <;> cases h
      exact .same _
    | unknownWord word offset =>
      cases error' with
      | strayCharacter | malformedNumeral | halfOperator => cases h
      | unknownWord word' offset' =>
        obtain ⟨hupper, rfl⟩ := LexicalError.unknownWord.inj h
        exact .unknownWord ((hword word word').2 hupper) offset

theorem toUpper_ofList (chars : List Char) :
    (String.ofList chars).toUpper = String.ofList (chars.map Char.toUpper) := by
  unfold String.toUpper
  rw [← String.toList_inj, String.toList_map, String.toList_ofList, String.toList_ofList]

namespace Lexeme

theorem beginsWith_toUpper (spelling text : List Char) :
    beginsWith spelling (text.map Char.toUpper) = beginsWith spelling text := by
  induction spelling generalizing text with
  | nil => rfl
  | cons s spelling ih =>
    cases text with
    | nil => rfl
    | cons c text =>
      rw [List.map_cons, beginsWith, beginsWith, toUpper_toUpper, ih]

theorem ofVocabulary?_toUpper (text : List Char) :
    ofVocabulary? (text.map Char.toUpper) = ofVocabulary? text := by
  unfold ofVocabulary?
  simp only [beginsWith_toUpper]

/-- No letter stands in a numeral. -/
theorem ofNumeral_toUpper (offset : Nat) (text : List Char) :
    ofNumeral offset (text.map Char.toUpper) = ofNumeral offset text := by
  have hrun : (text.takeWhile isNumeral).map Char.toUpper = text.takeWhile isNumeral := by
    refine (List.map_congr_left fun c hc => ?_).trans (List.map_id _)
    refine toUpper_of_not_isLetter (not_isLetter_of_lt ?_)
    rcases (isNumeral_iff c).1 (List.mem_takeWhile_imp hc) with hdigit | rfl
    · rw [isDigit_iff] at hdigit
      omega
    · decide
  unfold ofNumeral
  rw [takeWhile_toUpper isNumeral_toUpper, hrun]

/-- The error of a numeral is not about a word. -/
theorem mapError_ofNumeral (offset : Nat) (text : List Char) :
    (ofNumeral offset text).mapError LexicalError.inUpperCase = ofNumeral offset text := by
  simp only [ofNumeral]
  split
  · rfl
  · split <;> rfl

/-- A lexeme in upper case is read as it is in any case. -/
theorem scan_toUpper (offset : Nat) (c : Char) (rest : List Char) :
    scan offset c.toUpper (rest.map Char.toUpper) =
      (scan offset c rest).mapError LexicalError.inUpperCase := by
  have hword := takeWhile_toUpper isLetter_toUpper (c :: rest)
  have hvocabulary := ofVocabulary?_toUpper (c :: rest)
  have hnumeral := ofNumeral_toUpper offset (c :: rest)
  rw [List.map_cons] at hword hvocabulary hnumeral
  unfold scan
  rw [isDigit_toUpper, isLetter_toUpper, hword, hvocabulary, hnumeral]
  by_cases hdigit : c.isDigit
  · rw [if_pos hdigit, if_pos hdigit, mapError_ofNumeral]
  rw [if_neg hdigit, if_neg hdigit]
  cases ofVocabulary? (c :: rest) with
  | some lexeme => rfl
  | none =>
    show Except.error _ = Except.error _
    congr 1
    by_cases hletter : isLetter c
    · -- no operator begins with a letter
      have hoperator : ∀ d : Char, isLetter d → isHalfOperator d = false := by
        intro d hd
        unfold isHalfOperator
        rw [Bool.or_eq_false_iff, beq_eq_false_iff_ne, beq_eq_false_iff_ne]
        constructor <;> rintro rfl <;> exact not_isLetter_of_lt (by decide) hd
      rw [hoperator c hletter, hoperator c.toUpper (by rwa [isLetter_toUpper])]
      simp only [hletter, Bool.false_eq_true, if_false, if_true]
      rw [← toUpper_ofList]
      rfl
    · rw [toUpper_of_not_isLetter hletter]
      split_ifs <;> rfl

end Lexeme

namespace Cursor

/-- The same place when the text is put in upper case. -/
def inUpperCase (cursor : Cursor) : Cursor :=
  ⟨cursor.offset, cursor.rest.map Char.toUpper⟩

theorem advance_inUpperCase (count : Nat) (cursor : Cursor) :
    cursor.inUpperCase.advance count = (cursor.advance count).inUpperCase := by
  unfold inUpperCase advance
  rw [← List.map_take, ← List.map_drop, utf8Length_toUpper]

theorem skipBlanks_inUpperCase (cursor : Cursor) :
    cursor.inUpperCase.skipBlanks = cursor.skipBlanks.inUpperCase := by
  have hlength : (cursor.inUpperCase.rest.takeWhile isBlank).length =
      (cursor.rest.takeWhile isBlank).length := by
    show ((cursor.rest.map Char.toUpper).takeWhile isBlank).length = _
    rw [takeWhile_toUpper isBlank_toUpper, List.length_map]
  unfold skipBlanks
  rw [hlength, advance_inUpperCase]

/-- The next token of a text in upper case is the one that it has in any case, and so is the place
behind it. -/
theorem scan_inUpperCase (cursor : Cursor) :
    cursor.inUpperCase.scan =
      (cursor.scan.1.mapError LexicalError.inUpperCase, cursor.scan.2.inUpperCase) := by
  unfold scan
  rw [skipBlanks_inUpperCase]
  obtain ⟨offset, text⟩ := cursor.skipBlanks
  cases text with
  | nil => rfl
  | cons c rest =>
    have hadvance : ∀ count,
        (⟨offset, c.toUpper :: rest.map Char.toUpper⟩ : Cursor).advance count =
          ((⟨offset, c :: rest⟩ : Cursor).advance count).inUpperCase :=
      fun count => advance_inUpperCase count ⟨offset, c :: rest⟩
    simp only [inUpperCase, List.map_cons, Lexeme.scan_toUpper]
    -- an error passes one character, and a lexeme all of its own
    cases Lexeme.scan offset c rest with
    | error | ok =>
      show (_, _) = (_, _)
      rw [hadvance]
      rfl

end Cursor

/-! ### All tokens -/

/-- An answer when the text is put in upper case. -/
def Reply.inUpperCase (reply : Reply) : Reply :=
  reply.map fun answer => answer.mapError LexicalError.inUpperCase

namespace Scanner

/-- The same scanner when the text is put in upper case. -/
def inUpperCase (s : Scanner) : Scanner :=
  ⟨s.cursor.inUpperCase, s.finished⟩

/-- The answer to a call is the same but for a word in an error, and so is the place behind it. -/
theorem perform_inUpperCase (s : Scanner) (call : Call) :
    s.inUpperCase.perform call =
      ((s.perform call).1.inUpperCase, (s.perform call).2.inUpperCase) := by
  have hscan := s.cursor.scan_inUpperCase
  have hlast : ∀ answer : Except LexicalError Token,
      isLast (answer.mapError LexicalError.inUpperCase) = isLast answer := by
    rintro (error | token) <;> rfl
  cases call with
  | pull =>
    show (some s.cursor.inUpperCase.scan.1,
      (⟨s.cursor.inUpperCase.scan.2, s.finished⟩ : Scanner)) = _
    rw [hscan]
    rfl
  | next =>
    by_cases hfinished : s.finished
    · rw [perform_next_of_finished hfinished]
      exact perform_next_of_finished (s := s.inUpperCase) hfinished
    · -- whether the iterator ends is told by the answer, and by no letter of it
      have hupper := perform_next_of_unfinished (s := s.inUpperCase) hfinished
      rw [perform_next_of_unfinished hfinished, hupper]
      show (some s.cursor.inUpperCase.scan.1,
        (⟨s.cursor.inUpperCase.scan.2, isLast s.cursor.inUpperCase.scan.1⟩ : Scanner)) = _
      rw [hscan, hlast]
      rfl

theorem run_inUpperCase (s : Scanner) (calls : List Call) :
    s.inUpperCase.run calls =
      ((s.run calls).1.map Reply.inUpperCase, (s.run calls).2.inUpperCase) := by
  induction calls generalizing s with
  | nil => rfl
  | cons call calls ih => rw [run_cons, run_cons, perform_inUpperCase, ih, List.map_cons]

end Scanner

/-- What comes after the tokens when the text is put in upper case. -/
def Stop.inUpperCase : Stop → Stop
  | .endOfInput length => .endOfInput length
  | .failure error => .failure error.inUpperCase

namespace Stream

/-- What there is to read when the text is put in upper case. -/
def inUpperCase (s : Stream) : Stream :=
  ⟨s.tokens, s.stop.inUpperCase⟩

/-- The tokens of a text in upper case are those that it has in any case. -/
theorem scanFrom_inUpperCase (cursor : Cursor) :
    scanFrom [] cursor.inUpperCase = (scanFrom [] cursor).inUpperCase := by
  obtain ⟨offset, text⟩ := cursor
  -- each step reads the same token in upper case, and goes on at the same place
  induction offset, text using Cursor.scan_induction with
  | @error offset text _ _ hscan =>
    have hupper := Cursor.scan_inUpperCase ⟨offset, text⟩
    rw [hscan] at hupper
    rw [scanFrom_of_error hscan, scanFrom_of_error hupper]
    rfl
  | @ending offset text _ hscan =>
    have hupper := Cursor.scan_inUpperCase ⟨offset, text⟩
    rw [hscan] at hupper
    rw [scanFrom_of_endOfInput hscan rfl, scanFrom_of_endOfInput hupper rfl]
    rfl
  | @token offset _ blanks lexeme after _ hscan hkind ih =>
    have hupper := Cursor.scan_inUpperCase ⟨offset, blanks ++ lexeme ++ after⟩
    rw [hscan] at hupper
    rw [scanFrom_nil_of_token hscan hkind, scanFrom_nil_of_token hupper hkind, ih]
    rfl

end Stream

/-! ### Two texts -/

/-- Two sources of one name, with texts that differ in the case of letters. -/
structure Source.Recased (source source' : Source) : Prop where
  /-- The names are the same. -/
  name_eq : source.name? = source'.name?
  /-- The case of some letters has been changed. -/
  text : Reckoner.Recased source.text.toList source'.text.toList

/-- Two reports of one failure, but for the case of letters of the source and of an unknown word. -/
structure Report.Recased (report report' : Report) : Prop where
  /-- The sources are the same but for the case of letters. -/
  source : report.source.Recased report'.source
  /-- The failures are the same but for the case of letters of a word. -/
  failure : report.failure.Recased report'.failure
  /-- The failures are about the same place. -/
  span_eq : report.failure.span = report'.failure.span

/-- The case of the letters of a word does not change its place. -/
theorem LexicalError.Recased.span_eq {error error' : LexicalError} (h : error.Recased error') :
    error.span = error'.span := by
  cases h with
  | same => rfl
  | @unknownWord word word' h offset =>
    have hsize : utf8Length word.toList = utf8Length word'.toList := by
      rw [← utf8Length_toUpper, Reckoner.recased_iff.1 h, utf8Length_toUpper]
    rw [utf8Length_toList, utf8Length_toList] at hsize
    show Span.mk _ _ = Span.mk _ _
    rw [hsize]

theorem Failure.Recased.span_eq {failure failure' : Failure} (h : failure.Recased failure') :
    failure.span = failure'.span := by
  cases h with
  | same => rfl
  | lexical h => exact h.span_eq

section

variable {source source' : Source}

/-- Results that are the same up to a change of their errors agree but for this change. -/
theorem Agree.of_mapError_eq {ε ε' α : Type} {f : ε → ε'} {x y : Except ε α}
    (h : x.mapError f = y.mapError f) :
    Agree (fun error error' => f error = f error') x y := by
  cases x with
  | error error =>
    cases y with
    | error error' => exact .error (Except.error.inj h)
    | ok b => cases h
  | ok a =>
    cases y with
    | error error' => cases h
    | ok b =>
      obtain rfl := Except.ok.inj h
      exact .ok a

/-- Failures become reports of the sources. -/
theorem Agree.report {α : Type} {x y : Except Failure α} (h : source.Recased source')
    (hagree : Agree Failure.Recased x y) :
    Agree Report.Recased (x.mapError (.mk source)) (y.mapError (.mk source')) := by
  cases hagree with
  | ok a => exact .ok a
  | error hfailure => exact .error ⟨h, hfailure, hfailure.span_eq⟩

/-- Answers that are the same in upper case differ in an unknown word at most. -/
theorem Reply.rel_of_inUpperCase_eq {reply reply' : Reply} (h : source.Recased source')
    (hupper : reply.inUpperCase = reply'.inUpperCase) :
    Option.Rel (Agree Report.Recased) (reply.inSource source) (reply'.inSource source') := by
  cases reply with
  | none =>
    cases reply' with
    | none => exact .none
    | some answer' => cases hupper
  | some answer =>
    cases reply' with
    | none => cases hupper
    | some answer' =>
      have hagree := Agree.of_mapError_eq (Option.some.inj hupper)
      apply Option.Rel.some
      cases hagree with
      | ok token => exact .ok token
      | error herror =>
        have hrecased := LexicalError.recased_iff.2 herror
        exact .error ⟨h, .lexical hrecased, hrecased.span_eq⟩

/-- Texts that differ in the case of letters begin as the same text in upper case. -/
theorem Cursor.inUpperCase_start (h : source.Recased source') :
    (start source.text).inUpperCase = (start source'.text).inUpperCase := by
  unfold start inUpperCase
  rw [recased_iff.1 h.text]

/-- All calls are answered alike. -/
theorem Scanner.forall₂_run (h : source.Recased source') (calls : List Call) :
    List.Forall₂ (Option.Rel (Agree Report.Recased))
      (((ofText source.text).run calls).1.map (Reply.inSource source))
      (((ofText source'.text).run calls).1.map (Reply.inSource source')) := by
  have hstart : (ofText source.text).inUpperCase = (ofText source'.text).inUpperCase := by
    unfold ofText inUpperCase
    rw [Cursor.inUpperCase_start h]
  -- both runs are, in upper case, the run of the one scanner that the two have become
  have hreplies := congrArg (fun s => (s.run calls).1) hstart
  simp only [run_inUpperCase] at hreplies
  rw [← List.forall₂_eq_eq_eq, List.forall₂_map_left_iff, List.forall₂_map_right_iff] at hreplies
  rw [List.forall₂_map_left_iff, List.forall₂_map_right_iff]
  exact hreplies.imp fun _ _ hupper => Reply.rel_of_inUpperCase_eq h hupper

/-- The streams have the same tokens and the same end, but for the letters of a word. -/
theorem Stream.related_ofText (h : source.Recased source') :
    (ofText source.text).Related (· = ·) LexicalError.Recased (ofText source'.text) := by
  have hupper : (ofText source.text).inUpperCase = (ofText source'.text).inUpperCase := by
    unfold ofText
    rw [← scanFrom_inUpperCase, ← scanFrom_inUpperCase, Cursor.inUpperCase_start h]
  obtain ⟨htokens, hstop⟩ := Stream.mk.inj hupper
  refine ⟨?_, ?_⟩
  · rw [htokens]
    exact List.forall₂_same.2 fun t _ => ⟨rfl, rfl, rfl⟩
  · generalize (ofText source.text).stop = stop, (ofText source'.text).stop = stop' at hstop
    cases stop with
    | endOfInput length =>
      cases stop' with
      | endOfInput length' =>
        obtain rfl := Stop.endOfInput.inj hstop
        exact .endOfInput rfl
      | failure error' => cases hstop
    | failure error =>
      cases stop' with
      | endOfInput length' => cases hstop
      | failure error' => exact .failure (LexicalError.recased_iff.2 (Stop.failure.inj hstop))

/-- The texts are the same expression, or none for the same reason. -/
theorem agree_parse (h : source.Recased source') :
    Agree Failure.Recased (parse source.text).result (parse source'.text).result := by
  unfold parse
  rcases (Stream.related_ofText h).parse_cases with
    ⟨e, e', he, he', halike⟩ | ⟨failure, failure', hf, hf', hrelated⟩
  · rw [he, he', halike.eq]
    exact .ok e'
  · rw [hf, hf']
    cases hrelated with
    | lexical hlexical => exact .error (.lexical hlexical)
    | grammar hgrammar =>
      rw [hgrammar.eq]
      exact .error (.same _)

/-- Letter case is insignificant. Two sources that differ in the case of letters are scanned alike,
however one calls the scanner. They are the same expression and have the same value, or they are
none and have none for the same reason, at the same place. Only the letters of a word that is none
differ in the errors, as they do in the sources. -/
theorem letter_case_insignificant (h : source.Recased source') :
    (∀ calls, List.Forall₂ (Option.Rel (Agree Report.Recased))
      (((Scanner.ofText source.text).run calls).1.map (Reply.inSource source))
      (((Scanner.ofText source'.text).run calls).1.map (Reply.inSource source'))) ∧
      Agree Report.Recased ((parse source.text).result.mapError (.mk source))
        ((parse source'.text).result.mapError (.mk source')) ∧
      Agree Report.Recased ((valueOf source.text).mapError (.mk source))
        ((valueOf source'.text).mapError (.mk source')) := by
  have hparse := agree_parse h
  refine ⟨Scanner.forall₂_run h, hparse.report h, Agree.report h ?_⟩
  generalize hresult : (parse source.text).result = result,
    hresult' : (parse source'.text).result = result' at hparse
  cases hparse with
  | ok e =>
    -- the value is that of the one tree
    rw [valueOf_of_parse_eq_ok hresult, valueOf_of_parse_eq_ok hresult']
    cases e.value with
    | ok x => exact .ok x
    | error error => exact .error (.same _)
  | error hfailure =>
    rw [valueOf_of_parse_eq_error hresult, valueOf_of_parse_eq_error hresult']
    exact .error hfailure

/-- Names are read in any case, and a word that is none is repeated as it stands. -/
theorem letter_case_insignificant_unknown_word :
    let source : Source := ⟨none, "Sin(Pi) + Foo"⟩
    let source' : Source := ⟨none, "sIN(pI) + fOO"⟩
    source.Recased source' ∧
      Agree Report.Recased ((valueOf source.text).mapError (.mk source))
        ((valueOf source'.text).mapError (.mk source')) := by
  intro source source'
  have h : source.Recased source' := ⟨rfl, recased_iff.2 (by decide)⟩
  exact ⟨h, (letter_case_insignificant h).2.2⟩

end

end Reckoner
