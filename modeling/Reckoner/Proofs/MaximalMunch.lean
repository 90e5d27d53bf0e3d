import Reckoner.Proofs.Scanning

/-!
# The scanner loses nothing and reads the longest tokens

The answers of a scanner that is asked for one token after another are tokens and then the end of
the text exactly if the tokens are the maximal munch of the text: they stand apart at their spans,
there is nothing but blanks around them, and each is the longest lexeme in its place.

## Main definitions

* `Scanner.Yields scanner answers`: the answers that a scanner gives until it gives no more;
* `MaximalMunch offset text ts`: the tokens are the maximal munch of the text.

## Main results

* `Scanner.yields_iff`: a scanner yields one sequence of answers, which are those of the stream;
* `maximalMunch_iff_cut`: the maximal munch of a text is what it is cut into;
* `yields_iff_maximalMunch`: a scanner yields the tokens of the maximal munch, and nothing else
  without an error.
-/

namespace Reckoner

namespace Scanner

/-- The scanner, asked until it gives no more answers, gives these. -/
inductive Yields : Scanner → List (Except LexicalError Token) → Prop
  /-- There are no more answers. -/
  | nil {scanner : Scanner} (h : scanner.next?.1 = none) : Yields scanner []
  /-- There is one more answer. -/
  | cons {scanner : Scanner} {answer : Except LexicalError Token}
      {answers : List (Except LexicalError Token)} (h : scanner.next?.1 = some answer)
      (hrest : Yields scanner.next?.2 answers) : Yields scanner (answer :: answers)

end Scanner

/-- Whether a place lies in a part of a text. -/
def Span.Covers (span : Span) (place : Nat) : Prop :=
  span.offset ≤ place ∧ place < span.offset + span.length

/-- The tokens are the maximal munch of a text that begins `offset` bytes further on in another
text. -/
structure MaximalMunch (offset : Nat) (text : List Char) (ts : List Token) : Prop where
  /-- Each token stands at its span, which holds at least one character and no blank. The characters
  there are a lexeme of the kind of the token, and nothing longer at the same place is a lexeme. The
  text of the token is the canonical one. -/
  stands : ∀ t ∈ ts, ∃ before lexeme after, text = before ++ lexeme ++ after ∧
    t.span = ⟨offset + utf8Length before, utf8Length lexeme⟩ ∧ lexeme ≠ [] ∧
    (∀ c ∈ lexeme, ¬isBlank c) ∧ Longest t.kind lexeme after ∧ CanonicalText t.kind lexeme t.text
  /-- No span begins before the one in front of it has ended. -/
  ordered : ts.Pairwise fun t u => t.span.offset + t.span.length ≤ u.span.offset
  /-- Every character that lies in no span is a blank. -/
  blank : ∀ before c after, text = before ++ c :: after →
    (∀ t ∈ ts, ¬t.span.Covers (offset + utf8Length before)) → isBlank c

/-- Of two beginnings of a text, the one with more bytes goes on the other. -/
theorem exists_append_of_utf8Length_le {xs ys xs' ys' : List Char} (h : xs ++ ys = xs' ++ ys')
    (hle : utf8Length xs ≤ utf8Length xs') : ∃ zs, xs' = xs ++ zs ∧ ys = zs ++ ys' := by
  rcases List.append_eq_append_iff.1 h with ⟨zs, hxs, hys⟩ | ⟨zs, rfl, rfl⟩
  · exact ⟨zs, hxs, hys⟩
  · cases zs with
    | nil => exact ⟨[], by simp, by simp⟩
    | cons c zs =>
      have hlt := utf8Length_lt_of_append_cons xs' c zs
      omega

namespace MaximalMunch

variable {offset : Nat} {text before lexeme after : List Char} {t : Token} {ts : List Token}

/-- All tokens but the first stand behind it. -/
theorem le_offset_of_mem (h : MaximalMunch offset text (t :: ts))
    (hspan : t.span = ⟨offset + utf8Length before, utf8Length lexeme⟩) {u : Token} (hu : u ∈ ts) :
    offset + utf8Length (before ++ lexeme) ≤ u.span.offset := by
  have hle := List.rel_of_pairwise_cons h.ordered hu
  rw [hspan] at hle
  rw [utf8Length_append, ← Nat.add_assoc]
  exact hle

/-- There are only blanks in front of the first token. -/
theorem isBlank_of_mem_before (h : MaximalMunch offset (before ++ lexeme ++ after) (t :: ts))
    (hspan : t.span = ⟨offset + utf8Length before, utf8Length lexeme⟩) :
    ∀ c ∈ before, isBlank c := by
  intro c hc
  obtain ⟨front, back, rfl⟩ := List.append_of_mem hc
  have hlt := utf8Length_lt_of_append_cons front c back
  refine h.blank front c (back ++ lexeme ++ after) (by simp) fun u hu hcovers => ?_
  -- all spans begin behind the character
  rcases List.mem_cons.1 hu with rfl | hu
  · have hle := hcovers.1
    rw [hspan] at hle
    dsimp only at hle
    omega
  · have hle := Nat.le_trans (h.le_offset_of_mem hspan hu) hcovers.1
    rw [utf8Length_append (front ++ c :: back)] at hle
    omega

/-- Behind the first token the other tokens are the maximal munch of what is left. -/
theorem tail (h : MaximalMunch offset (before ++ lexeme ++ after) (t :: ts))
    (hspan : t.span = ⟨offset + utf8Length before, utf8Length lexeme⟩) :
    MaximalMunch (offset + utf8Length (before ++ lexeme)) after ts := by
  refine ⟨fun u hu => ?_, h.ordered.of_cons, ?_⟩
  · obtain ⟨before', lexeme', after', htext, hspan', hrest⟩ := h.stands u (.tail _ hu)
    have hle := h.le_offset_of_mem hspan hu
    rw [hspan'] at hle
    rw [List.append_assoc before'] at htext
    -- what stands in front of the later token begins with the first token and all before it
    obtain ⟨between, rfl, rfl⟩ :=
      exists_append_of_utf8Length_le htext (Nat.le_of_add_le_add_left hle)
    refine ⟨between, lexeme', after', by simp, ?_, hrest⟩
    rw [hspan', utf8Length_append (before ++ lexeme), Nat.add_assoc]
  · rintro between c rest rfl huncovered
    refine h.blank (before ++ lexeme ++ between) c rest (by simp) fun u hu hcovers => ?_
    rw [utf8Length_append (before ++ lexeme), ← Nat.add_assoc] at hcovers
    rcases List.mem_cons.1 hu with rfl | hu
    · have hlt := hcovers.2
      rw [hspan, utf8Length_append before] at hlt
      dsimp only at hlt
      omega
    · exact huncovered u hu hcovers

theorem cut (h : MaximalMunch offset text ts) : Cut offset text ts := by
  induction ts generalizing offset text with
  | nil =>
    refine .blank fun c hc => ?_
    obtain ⟨before, after, rfl⟩ := List.append_of_mem hc
    exact h.blank before c after rfl (by simp)
  | cons t ts ih =>
    obtain ⟨before, lexeme, after, rfl, hspan, -, -, hlongest, hcanonical⟩ := h.stands t (.head _)
    exact .token ⟨h.isBlank_of_mem_before hspan, hlongest, hcanonical, hspan⟩ (ih (h.tail hspan))

/-- A text of blanks has no tokens. -/
theorem nil (h : ∀ c ∈ text, isBlank c) : MaximalMunch offset text [] := by
  refine ⟨by simp, .nil, ?_⟩
  rintro before c after rfl -
  exact h c (by simp)

/-- A token that leads a text makes the maximal munch of what is left that of the text. -/
theorem cons {blanks : List Char} (hleads : t.Leads offset blanks lexeme after)
    (h : MaximalMunch (offset + utf8Length (blanks ++ lexeme)) after ts) :
    MaximalMunch offset (blanks ++ lexeme ++ after) (t :: ts) := by
  have hspan := hleads.span_eq
  have hspells := hleads.longest.spells
  refine ⟨fun u hu => ?_, .cons (fun u hu => ?_) h.ordered, fun before c rest htext hnone => ?_⟩
  · rcases List.mem_cons.1 hu with rfl | hu
    · exact ⟨blanks, lexeme, after, rfl, hspan, hspells.ne_nil,
        fun c hc => hspells.not_isBlank_of_mem hc, hleads.longest, hleads.canonical⟩
    · obtain ⟨before, lexeme', after', rfl, hspan', hstands⟩ := h.stands u hu
      refine ⟨blanks ++ lexeme ++ before, lexeme', after', by simp, ?_, hstands⟩
      rw [hspan', utf8Length_append (blanks ++ lexeme) before, Nat.add_assoc]
  · obtain ⟨before, _, _, -, hspan', -⟩ := h.stands u hu
    rw [hspan, hspan', utf8Length_append blanks]
    dsimp only
    omega
  · have hnot := hnone t (.head _)
    rw [hspan] at hnot
    by_cases hle : utf8Length (blanks ++ lexeme) ≤ utf8Length before
    -- the character stands behind the token
    · obtain ⟨between, rfl, rfl⟩ := exists_append_of_utf8Length_le htext hle
      refine h.blank between c rest rfl fun u hu hcovers => hnone u (.tail _ hu) ?_
      rw [utf8Length_append (blanks ++ lexeme), ← Nat.add_assoc]
      exact hcovers
    -- the character stands in front of the token, as it does not lie in it
    · have hlt : utf8Length before < utf8Length blanks := by
        refine Nat.lt_of_not_le fun hge => hnot ⟨Nat.add_le_add_left hge _, ?_⟩
        rw [utf8Length_append] at hle
        dsimp only
        omega
      rw [List.append_assoc] at htext
      obtain ⟨between, rfl, hcons⟩ :=
        exists_append_of_utf8Length_le htext.symm (Nat.le_of_lt hlt)
      cases between with
      | nil => simp at hlt
      | cons d between =>
        obtain ⟨rfl, -⟩ := List.cons.inj hcons
        exact hleads.blank c (by simp)

end MaximalMunch

/-- The maximal munch of a text is what it is cut into. -/
theorem maximalMunch_iff_cut {offset : Nat} {text : List Char} {ts : List Token} :
    MaximalMunch offset text ts ↔ Cut offset text ts := by
  refine ⟨MaximalMunch.cut, fun h => ?_⟩
  induction h with
  | blank hblank => exact .nil hblank
  | token hleads _ ih => exact .cons hleads ih

/-- A text has one maximal munch. -/
theorem MaximalMunch.unique {offset : Nat} {text : List Char} {ts us : List Token}
    (h : MaximalMunch offset text ts) (h' : MaximalMunch offset text us) : ts = us := by
  have hts := Stream.scanFrom_eq_iff_cut.2 ⟨h.cut, rfl⟩
  have hus := Stream.scanFrom_eq_iff_cut.2 ⟨h'.cut, rfl⟩
  exact (Stream.mk.inj (hts.symm.trans hus)).1

/-- What a scanner answers on its way through a stream. -/
def Stream.answers (stream : Stream) : List (Except LexicalError Token) :=
  stream.tokens.map .ok ++ [match stream.stop with
    | .endOfInput length => .ok (.endOfInput length)
    | .failure error => .error error]

/-- The answers are tokens only if the stream ends well. -/
theorem Stream.answers_eq_iff {stream : Stream} {ts : List Token} {ending : Token} :
    stream.answers = ts.map .ok ++ [.ok ending] ↔
      ∃ length, stream = ⟨ts, .endOfInput length⟩ ∧ ending = .endOfInput length := by
  obtain ⟨us, stop⟩ := stream
  constructor
  · intro h
    obtain ⟨htokens, hlast⟩ := List.append_inj' h rfl
    obtain rfl : us = ts := (List.map_inj_right fun _ _ => Except.ok.inj).1 htokens
    cases stop with
    | failure error => cases hlast
    | endOfInput length => exact ⟨length, rfl, (Except.ok.inj (List.cons.inj hlast).1).symm⟩
  · rintro ⟨length, h, rfl⟩
    obtain ⟨rfl, rfl⟩ := Stream.mk.inj h
    rfl

namespace Scanner

theorem yields_finished_iff {cursor : Cursor} {answers : List (Except LexicalError Token)} :
    Yields ⟨cursor, true⟩ answers ↔ answers = [] := by
  constructor
  · rintro (_ | ⟨h, -⟩)
    · rfl
    · cases h
  · rintro rfl
    exact .nil rfl

theorem yields_iff_of_scan {cursor next : Cursor} {answer : Except LexicalError Token}
    {answers : List (Except LexicalError Token)} (h : cursor.scan = (answer, next)) :
    Yields ⟨cursor, false⟩ answers ↔
      ∃ rest, answers = answer :: rest ∧ Yields ⟨next, isLast answer⟩ rest := by
  have hnext : next? ⟨cursor, false⟩ = (some answer, ⟨next, isLast answer⟩) := by
    simp [next?, pull, h]
  constructor
  · rintro (hnone | ⟨hsome, hrest⟩)
    · rw [hnext] at hnone
      cases hnone
    · rw [hnext] at hsome hrest
      obtain rfl := Option.some.inj hsome
      exact ⟨_, rfl, hrest⟩
  · rintro ⟨rest, rfl, hrest⟩
    exact .cons (by rw [hnext]) (by rw [hnext]; exact hrest)

/-- A scanner that has not finished yields the answers of the stream from its place on, and no
other ones. -/
theorem yields_iff {cursor : Cursor} {answers : List (Except LexicalError Token)} :
    Yields ⟨cursor, false⟩ answers ↔ answers = (Stream.scanFrom [] cursor).answers := by
  obtain ⟨offset, text⟩ := cursor
  induction offset, text using Cursor.scan_induction generalizing answers with
  | error hscan =>
    rw [yields_iff_of_scan hscan, Stream.scanFrom_of_error hscan]
    simp [isLast, yields_finished_iff, Stream.answers]
  | ending _ hscan =>
    rw [yields_iff_of_scan hscan, Stream.scanFrom_of_endOfInput hscan rfl]
    simp [isLast, Token.endOfInput, yields_finished_iff, Stream.answers]
  | @token _ t _ _ _ _ hscan hkind ih =>
    have hlast : isLast (.ok t) = false := beq_eq_false_iff_ne.2 hkind
    rw [yields_iff_of_scan hscan, Stream.scanFrom_nil_of_token hscan hkind, hlast]
    constructor
    · rintro ⟨rest, rfl, hrest⟩
      rw [ih.1 hrest]
      rfl
    · rintro rfl
      exact ⟨_, rfl, ih.2 rfl⟩

end Scanner

/-- A scanner yields tokens and the end of the text, and no error, exactly if the tokens are the
maximal munch of the text, and the end is where the text ends. -/
theorem yields_iff_maximalMunch (text : String) (ts : List Token) (ending : Token) :
    (Scanner.ofText text).Yields (ts.map .ok ++ [.ok ending]) ↔
      MaximalMunch 0 text.toList ts ∧ ending = .endOfInput text.utf8ByteSize := by
  rw [Scanner.ofText, Scanner.yields_iff, eq_comm, Stream.answers_eq_iff, maximalMunch_iff_cut]
  constructor
  · rintro ⟨length, hstream, rfl⟩
    obtain ⟨hcut, rfl⟩ := Stream.scanFrom_eq_iff_cut.1 hstream
    rw [Nat.zero_add, utf8Length_toList]
    exact ⟨hcut, rfl⟩
  · rintro ⟨hcut, rfl⟩
    refine ⟨text.utf8ByteSize, Stream.scanFrom_eq_iff_cut.2 ⟨hcut, ?_⟩, rfl⟩
    rw [Nat.zero_add, utf8Length_toList]

end Reckoner
