import Reckoner.Proofs.MaximalMunch
import Reckoner.Proofs.Reading.Alike
import Reckoner.Proofs.Seams

/-!
# Blanks between tokens

Blanks that are put into a text change nothing but places, unless they part a token or the scanner
fails at something that begins in front of them. What is in front of such a gap is scanned as if
nothing followed, and what is behind it as if nothing came before.

## Main definitions

* `Cursor.failurePlace?`: where the first thing begins that cannot be read;
* `Span.opened place count`: a span when so many bytes are put in at a place;
* `Gap offset front back`: no token is parted, and nothing fails, in front of `back`.

## Main results

* `Cursor.failurePlace?_cases`: what stands at the place of a failure;
* `Gap.exists_cut`: a text with a gap is read part by part;
* `valueOf_insert_blanks`: blanks in a gap move what is behind them, and change nothing else.
-/

namespace Reckoner

/-- The span when `count` bytes are put into the text at a place: a span that begins there or behind
stands so much further back. -/
def Span.opened (place count : Nat) (span : Span) : Span :=
  if place ≤ span.offset then span.moved count else span

/-- Whether a place lies between two bytes of a part of a text. -/
def Span.Parted (place : Nat) (span : Span) : Prop :=
  span.offset < place ∧ place < span.offset + span.length

instance (place : Nat) (span : Span) : Decidable (span.Parted place) :=
  inferInstanceAs (Decidable (_ ∧ _))

namespace Cursor

/-- Where the first thing begins that cannot be read, if there is one. -/
def failurePlace? (cursor : Cursor) : Option Nat :=
  match _ : cursor.scan with
  | (.error _, _) => some cursor.skipBlanks.offset
  | (.ok token, next) => if _ : token.kind = .endOfInput then none else next.failurePlace?
termination_by cursor.rest.length
decreasing_by exact length_rest_lt_of_scan ‹_› ‹_›

variable {cursor next : Cursor}

theorem failurePlace?_of_error {error : LexicalError} (h : cursor.scan = (.error error, next)) :
    cursor.failurePlace? = some cursor.skipBlanks.offset := by
  rw [failurePlace?]
  split
  next => rfl
  next _ _ hscan => cases h.symm.trans hscan

theorem failurePlace?_of_endOfInput {token : Token} (h : cursor.scan = (.ok token, next))
    (hkind : token.kind = .endOfInput) : cursor.failurePlace? = none := by
  rw [failurePlace?]
  split
  next _ _ hscan => cases h.symm.trans hscan
  next _ _ hscan =>
    cases h.symm.trans hscan
    exact dif_pos hkind

theorem failurePlace?_of_token {token : Token} (h : cursor.scan = (.ok token, next))
    (hkind : token.kind ≠ .endOfInput) : cursor.failurePlace? = next.failurePlace? := by
  rw [failurePlace?]
  split
  next _ _ hscan => cases h.symm.trans hscan
  next _ _ hscan =>
    cases h.symm.trans hscan
    exact dif_neg hkind

/-- A stream ends well, or at the place of a failure, where its error is the reason why no lexeme
can be read. -/
theorem failurePlace?_cases (offset : Nat) (text : List Char) :
    ((⟨offset, text⟩ : Cursor).failurePlace? = none ∧
      ∃ length, (Stream.scanFrom [] ⟨offset, text⟩).stop = .endOfInput length) ∨
    ∃ before c after error, text = before ++ c :: after ∧ ¬isBlank c ∧
      (⟨offset, text⟩ : Cursor).failurePlace? = some (offset + utf8Length before) ∧
      Lexeme.scan (offset + utf8Length before) c after = .error error ∧
      (Stream.scanFrom [] ⟨offset, text⟩).stop = .failure error := by
  induction offset, text using scan_induction with
  | error hscan =>
    rw [failurePlace?_of_error hscan, Stream.scanFrom_of_error hscan]
    obtain ⟨blanks, c, rfl, hblanks, hc, herror, -⟩ := passes_of_scan_eq_error hscan
    rw [skipBlanks_append hblanks fun d after hd => (List.cons.inj hd).1 ▸ hc]
    exact .inr ⟨blanks, c, _, _, rfl, hc, rfl, herror, rfl⟩
  | ending _ hscan =>
    rw [Stream.scanFrom_of_endOfInput hscan rfl]
    exact .inl ⟨failurePlace?_of_endOfInput hscan rfl, _, rfl⟩
  | @token _ _ blanks lexeme _ _ hscan hkind ih =>
    rw [failurePlace?_of_token hscan hkind, Stream.scanFrom_nil_of_token hscan hkind]
    rcases ih with hwell | ⟨before, c, rest, error, rfl, hc, hplace, hfails⟩
    · exact .inl hwell
    · rw [Nat.add_assoc, ← utf8Length_append] at hplace hfails
      exact .inr ⟨blanks ++ lexeme ++ before, c, rest, error, by simp, hc, hplace, hfails⟩

/-- Blanks are skipped up to a character in the first part of a text. -/
theorem offset_skipBlanks_lt {offset : Nat} {front : List Char} (h : ¬∀ c ∈ front, isBlank c)
    (back : List Char) :
    (⟨offset, front ++ back⟩ : Cursor).skipBlanks.offset < offset + utf8Length front := by
  obtain ⟨blanks, rest, rfl, hblanks, hrest⟩ := exists_blanks front
  cases rest with
  | nil => exact absurd (by simpa using hblanks) h
  | cons c rest =>
    have hskip : (⟨offset, blanks ++ (c :: rest ++ back)⟩ : Cursor).skipBlanks = _ :=
      skipBlanks_append hblanks fun d after hd => by
        obtain ⟨rfl, -⟩ := List.cons.inj hd
        exact hrest _ rest rfl
    have hlt := utf8Length_lt_of_append_cons blanks c rest
    rw [List.append_assoc, hskip]
    dsimp only
    omega

end Cursor

/-- Between two parts of a text, the first of which begins `offset` bytes further on in another
text, there is no token, and nothing in front of the second part fails. -/
structure Gap (offset : Nat) (front back : List Char) : Prop where
  /-- No token lies in both parts. -/
  tokens : ∀ t ∈ (Stream.scanFrom [] ⟨offset, front ++ back⟩).tokens,
    ¬t.span.Parted (offset + utf8Length front)
  /-- What cannot be read begins in the second part. -/
  failure : ∀ place, (⟨offset, front ++ back⟩ : Cursor).failurePlace? = some place →
    offset + utf8Length front ≤ place

namespace Gap

variable {offset : Nat} {front back : List Char}

/-- If the first part is not blank, it begins with a token, and the gap is one of what is left. -/
theorem exists_token (h : Gap offset front back) (hblank : ¬∀ c ∈ front, isBlank c) :
    ∃ token blanks lexeme after, front = blanks ++ lexeme ++ after ∧
      token.Leads offset blanks lexeme (after ++ back) ∧
      (⟨offset, front ++ back⟩ : Cursor).scan =
        (.ok token, ⟨offset + utf8Length (blanks ++ lexeme), after ++ back⟩) ∧
      Gap (offset + utf8Length (blanks ++ lexeme)) after back := by
  rcases hscan : (⟨offset, front ++ back⟩ : Cursor).scan with ⟨error | token, next⟩
  · -- the failure would begin in the first part
    have hle := h.failure _ (Cursor.failurePlace?_of_error hscan)
    have hlt := @Cursor.offset_skipBlanks_lt offset _ hblank back
    omega
  rcases Cursor.leads_of_scan_eq_ok hscan with
    ⟨hall, -⟩ | ⟨blanks, lexeme, behind, htext, hleads, rfl⟩
  · exact absurd (fun c hc => hall c (List.mem_append_left back hc)) hblank
  have hkind := hleads.longest.spells.ne_endOfInput
  have hstream := Stream.scanFrom_nil_of_token hscan hkind
  have htokens := h.tokens
  rw [hstream] at htokens
  have hnot : ¬token.span.Parted (offset + utf8Length front) := htokens token (.head _)
  -- the token begins in the first part, so that it ends there too
  have hbegins : utf8Length blanks < utf8Length front := by
    refine Nat.lt_of_not_le fun hle => hblank ?_
    rw [List.append_assoc] at htext
    obtain ⟨more, rfl, -⟩ := exists_append_of_utf8Length_le htext hle
    exact fun c hc => hleads.blank c (List.mem_append_left more hc)
  have hends : utf8Length (blanks ++ lexeme) ≤ utf8Length front := by
    rw [Span.Parted, hleads.span_eq] at hnot
    rw [utf8Length_append]
    dsimp only at hnot
    omega
  obtain ⟨after, rfl, rfl⟩ := exists_append_of_utf8Length_le htext.symm hends
  refine ⟨token, blanks, lexeme, after, rfl, hleads, rfl, ⟨fun t ht => ?_, fun place hplace => ?_⟩⟩
  · rw [Nat.add_assoc, ← utf8Length_append]
    exact htokens t (.tail _ ht)
  · rw [Nat.add_assoc, ← utf8Length_append]
    exact h.failure place ((Cursor.failurePlace?_of_token hscan hkind).trans hplace)

/-- The first part is cut into the tokens that are read there, and the second one is read as if it
stood alone. -/
theorem exists_cut (h : Gap offset front back) : ∃ ts, Cut offset front ts ∧
    Stream.scanFrom [] ⟨offset, front ++ back⟩ =
      (Stream.scanFrom [] ⟨offset + utf8Length front, back⟩).behind ts := by
  induction hk : front.length using Nat.strongRecOn generalizing offset front with
  | ind k ih =>
    by_cases hblank : ∀ c ∈ front, isBlank c
    · exact ⟨[], .blank hblank, Stream.scanFrom_blanks hblank offset back⟩
    · obtain ⟨token, blanks, lexeme, after, rfl, hleads, hscan, hrest⟩ := h.exists_token hblank
      have hspells := hleads.longest.spells
      have hlt : after.length < k := by
        have hpos := List.length_pos_iff.2 hspells.ne_nil
        rw [List.length_append, List.length_append] at hk
        omega
      obtain ⟨ts, hcut, hstream⟩ := ih _ hlt hrest rfl
      -- with less behind it, the lexeme is the longest one all the more
      have hlongest : Longest token.kind lexeme after :=
        ⟨hspells, fun other longer hother hlonger =>
          hleads.longest.length_le other longer hother (hlonger.trans ⟨back, by simp⟩)⟩
      refine ⟨token :: ts, .token ⟨hleads.blank, hlongest, hleads.canonical, hleads.span_eq⟩ hcut,
        ?_⟩
      rw [Stream.scanFrom_nil_of_token hscan hspells.ne_endOfInput, hstream,
        utf8Length_append (blanks ++ lexeme), Nat.add_assoc, Stream.behind_behind]
      rfl

/-- Blanks in the gap are no part of any token. -/
theorem exists_cut_blanks (h : Gap offset front back) : ∃ ts, Cut offset front ts ∧
    ∀ blanks : List Char, (∀ c ∈ blanks, isBlank c) →
      Stream.scanFrom [] ⟨offset, front ++ blanks ++ back⟩ =
        (Stream.scanFrom [] ⟨offset + utf8Length front + utf8Length blanks, back⟩).behind ts := by
  obtain ⟨ts, hcut, hstream⟩ := h.exists_cut
  refine ⟨ts, hcut, fun blanks hblanks => ?_⟩
  cases blanks with
  | nil =>
    rw [List.append_nil]
    exact hstream
  | cons c blanks =>
    -- nothing joins a blank, so that the first part is read as if nothing followed
    have hseam : Seam front (c :: (blanks ++ back)) :=
      (apart_of_isBlank (hblanks c (.head _))).seam_cons front _
    have halone := Stream.scanFrom_eq_iff_cut.2 ⟨hcut, rfl⟩
    have happend := Stream.scanFrom_append hseam offset
    rw [halone, ← List.cons_append] at happend
    rw [List.append_assoc, happend, ← Stream.scanFrom_blanks hblanks]
    rfl

end Gap

/-- Tokens begin in the text that is cut into them. -/
theorem Cut.offset_lt {offset : Nat} {text : List Char} {ts : List Token} (h : Cut offset text ts) :
    ∀ t ∈ ts, t.span.offset < offset + utf8Length text := by
  induction h with
  | blank => simp
  | @token offset token blanks lexeme after ts hleads _ ih =>
    intro t ht
    rcases List.mem_cons.1 ht with rfl | ht
    · obtain ⟨c, chars, rfl⟩ := List.exists_cons_of_ne_nil hleads.longest.spells.ne_nil
      have hlt := utf8Length_lt_of_append_cons blanks c (chars ++ after)
      rw [hleads.span_eq, List.append_assoc]
      exact Nat.add_lt_add_left hlt offset
    · have hlt := ih t ht
      rw [utf8Length_append (blanks ++ lexeme), ← Nat.add_assoc]
      exact hlt

/-- With blanks in a gap, a text is scanned alike but for the places behind. -/
theorem Gap.alike {front back : List Char} (h : Gap 0 front back) {blanks : List Char}
    (hblanks : ∀ c ∈ blanks, isBlank c) :
    (Stream.scanFrom [] ⟨0, front ++ back⟩).Alike
      (fun span span' => span' = span.opened (utf8Length front) (utf8Length blanks))
      (Stream.scanFrom [] ⟨0, front ++ blanks ++ back⟩) := by
  obtain ⟨ts, hcut, hstream⟩ := h.exists_cut_blanks
  have hnone := hstream [] (by simp)
  rw [List.append_nil, utf8Length_nil, Nat.add_zero, Nat.zero_add] at hnone
  rw [hstream blanks hblanks, hnone, Nat.zero_add]
  -- what is behind the gap has been moved there from the beginning of a text
  have hback := Stream.scanFrom_moved 0 (utf8Length front) back
  have hmoved := Stream.scanFrom_moved 0 (utf8Length front + utf8Length blanks) back
  rw [Nat.zero_add] at hback hmoved
  rw [hback, hmoved]
  refine (Stream.alike_moved _ fun span => ?_).behind (List.forall₂_same.2 fun t ht => ?_)
  · have hle : utf8Length front ≤ (span.moved (utf8Length front)).offset := Nat.le_add_left ..
    rw [Span.opened, if_pos hle]
    simp [Span.moved, Nat.add_assoc]
  · have hlt := hcut.offset_lt t ht
    rw [Nat.zero_add] at hlt
    exact ⟨rfl, rfl, (if_neg (Nat.not_le.2 hlt)).symm⟩

/-- Blanks that are put into a text, at a place that lies in no token and not behind the beginning
of what cannot be read, are insignificant: the tokens are the same, and so is what ends them, and
the text has the same value or fails in the same way. Whatever begins at the place or behind stands
further back by the size of the blanks, and all else stays in its place. -/
theorem valueOf_insert_blanks (a w b : String) (hw : ∀ c ∈ w.toList, isBlank c)
    (htokens : ∀ t ∈ (Stream.ofText (a ++ b)).tokens, ¬t.span.Parted a.utf8ByteSize)
    (hfailure : ∀ place, (Cursor.start (a ++ b)).failurePlace? = some place →
      a.utf8ByteSize ≤ place) :
    (Stream.ofText (a ++ b)).Alike
        (fun span span' => span' = span.opened a.utf8ByteSize w.utf8ByteSize)
        (Stream.ofText (a ++ w ++ b)) ∧
      Agree (Failure.Alike fun span span' => span' = span.opened a.utf8ByteSize w.utf8ByteSize)
        (valueOf (a ++ b)) (valueOf (a ++ w ++ b)) := by
  have halike : (Stream.ofText (a ++ b)).Alike
      (fun span span' => span' = span.opened a.utf8ByteSize w.utf8ByteSize)
      (Stream.ofText (a ++ w ++ b)) := by
    rw [Stream.ofText, Stream.ofText, Cursor.start, Cursor.start]
    rw [Stream.ofText, Cursor.start] at htokens
    rw [Cursor.start] at hfailure
    simp only [String.toList_append, ← utf8Length_toList] at *
    exact Gap.alike ⟨by simpa using htokens, by simpa using hfailure⟩ hw
  exact ⟨halike, valueOf_alike halike⟩

/-- A wide blank between an operator and what cannot be read moves the error by its three bytes. -/
theorem valueOf_insert_wide_blank :
    valueOf ("2<<" ++ "@") = .error (.lexical (.strayCharacter '@' 3)) ∧
      valueOf ("2<<" ++ "\u3000" ++ "@") = .error (.lexical (.strayCharacter '@' 6)) ∧
      Agree (Failure.Alike fun span span' => span' = span.opened 3 3) (valueOf ("2<<" ++ "@"))
        (valueOf ("2<<" ++ "\u3000" ++ "@")) := by
  have hw : ∀ c ∈ "\u3000".toList, isBlank c := List.all_eq_true.1 (by decide +kernel)
  have htokens : ∀ t ∈ (Stream.ofText ("2<<" ++ "@")).tokens, ¬t.span.Parted 3 := by
    decide +kernel
  have hplace : (Cursor.start ("2<<" ++ "@")).failurePlace? = some 3 := by decide +kernel
  refine ⟨by decide +kernel, by decide +kernel, ?_⟩
  refine (valueOf_insert_blanks "2<<" "\u3000" "@" hw htokens fun place hfails => ?_).2
  rw [hplace] at hfails
  obtain rfl := Option.some.inj hfails
  decide

end Reckoner
