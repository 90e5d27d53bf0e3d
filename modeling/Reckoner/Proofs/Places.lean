import Reckoner.Proofs.LexicalErrors
import Reckoner.Proofs.Likeness

/-!
# The places of tokens

What is scanned in a text that stands further back has the same tokens further back, and all places
that the scanner names lie in the text that it reads.

## Main definitions

* `Span.moved`, `Token.moved`, `Stream.moved`: the same further back;
* `Span.Inside`, `Stream.Inside`: places in a part of a text;
* `Stream.Ordered`: tokens one behind another;
* `Stream.Alike`: two streams that say the same, at places that belong together.

## Main results

* `Stream.scanFrom_moved`: scanning a text further back;
* `Stream.inside_scanFrom`, `Stream.ordered_scanFrom`: the places that the scanner names;
* `Stream.alike_self`, `Stream.alike_moved`: a stream is like itself, and like itself further back.
-/

namespace Reckoner

/-- A part of a text, `count` bytes further back. -/
def Span.moved (count : Nat) (span : Span) : Span :=
  ⟨span.offset + count, span.length⟩

/-- The token, `count` bytes further back. -/
def Token.moved (count : Nat) (token : Token) : Token :=
  { token with span := token.span.moved count }

/-- The error, `count` bytes further back. -/
def LexicalError.moved (count : Nat) : LexicalError → LexicalError
  | .strayCharacter c offset => .strayCharacter c (offset + count)
  | .malformedNumeral span => .malformedNumeral (span.moved count)
  | .halfOperator c offset => .halfOperator c (offset + count)
  | .unknownWord word offset => .unknownWord word (offset + count)

/-- What ends a stream, `count` bytes further back. -/
def Stop.moved (count : Nat) : Stop → Stop
  | .endOfInput length => .endOfInput (length + count)
  | .failure error => .failure (error.moved count)

/-- The stream, `count` bytes further back. -/
def Stream.moved (count : Nat) (s : Stream) : Stream :=
  ⟨s.tokens.map (Token.moved count), s.stop.moved count⟩

/-- The span lies between two places. -/
def Span.Inside (low high : Nat) (span : Span) : Prop :=
  low ≤ span.offset ∧ span.offset + span.length ≤ high

/-- What ends a stream is at a place between two others. -/
def Stop.Inside (low high : Nat) : Stop → Prop
  | .endOfInput length => Span.Inside low high ⟨length, 0⟩
  | .failure error => error.span.Inside low high

/-- All places of a stream lie between two others. -/
structure Stream.Inside (low high : Nat) (s : Stream) : Prop where
  /-- So do those of the tokens. -/
  tokens : ∀ t ∈ s.tokens, t.span.Inside low high
  /-- So does that of what ends the stream. -/
  stop : s.stop.Inside low high

/-- Where a stream ends. -/
def Stop.place : Stop → Nat
  | .endOfInput length => length
  | .failure error => error.span.offset

/-- The tokens of a stream stand one behind another, in front of what ends the stream. -/
structure Stream.Ordered (s : Stream) : Prop where
  /-- No token begins before the one in front of it has ended. -/
  pairwise : s.tokens.Pairwise fun t u => t.span.offset + t.span.length ≤ u.span.offset
  /-- All have ended where the stream ends. -/
  le_place : ∀ t ∈ s.tokens, t.span.offset + t.span.length ≤ s.stop.place
  /-- Each takes up some room. -/
  length_pos : ∀ t ∈ s.tokens, 0 < t.span.length

/-- Two ends of streams that say the same, at places that belong together. -/
inductive Stop.Alike (R : Span → Span → Prop) : Stop → Stop → Prop
  | endOfInput {length length' : Nat} (h : R ⟨length, 0⟩ ⟨length', 0⟩) :
      Alike R (.endOfInput length) (.endOfInput length')
  | failure {error error' : LexicalError} (h : error.Alike R error') :
      Alike R (.failure error) (.failure error')

/-- Two streams that say the same, at places that belong together. -/
structure Stream.Alike (R : Span → Span → Prop) (s s' : Stream) : Prop where
  /-- The tokens say the same. -/
  tokens : List.Forall₂ (Token.Alike R) s.tokens s'.tokens
  /-- What ends the streams says the same. -/
  stop : s.stop.Alike R s'.stop

/-! ### Further back -/

theorem Lexeme.scan_moved (offset count : Nat) (c : Char) (rest : List Char) :
    scan (offset + count) c rest = (scan offset c rest).mapError (LexicalError.moved count) := by
  rw [scan, scan]
  split
  next =>
    simp only [ofNumeral]
    split
    next second _ =>
      simp only [Except.mapError, LexicalError.moved, Span.moved, Nat.add_right_comm]
    next => split <;> rfl
  next =>
    split
    next => rfl
    next =>
      simp only [Except.mapError]
      split
      next => rfl
      next => split <;> rfl

namespace Cursor

theorem advance_moved (offset count number : Nat) (text : List Char) :
    (⟨offset + count, text⟩ : Cursor).advance number =
      ⟨((⟨offset, text⟩ : Cursor).advance number).offset + count,
        ((⟨offset, text⟩ : Cursor).advance number).rest⟩ := by
  simp [advance, Nat.add_right_comm]

/-- The scanner reads the same further back. -/
theorem scan_moved {offset : Nat} {text : List Char} {answer : Except LexicalError Token}
    {next : Cursor} (h : (⟨offset, text⟩ : Cursor).scan = (answer, next)) (count : Nat) :
    (⟨offset + count, text⟩ : Cursor).scan =
      ((answer.map (Token.moved count)).mapError (LexicalError.moved count),
        ⟨next.offset + count, next.rest⟩) := by
  have hskip : (⟨offset + count, text⟩ : Cursor).skipBlanks =
      ⟨(⟨offset, text⟩ : Cursor).skipBlanks.offset + count,
        (⟨offset, text⟩ : Cursor).skipBlanks.rest⟩ := advance_moved _ _ _ _
  rw [scan] at h ⊢
  rw [hskip]
  generalize (⟨offset, text⟩ : Cursor).skipBlanks = cursor at h
  obtain ⟨place, rest⟩ := cursor
  cases rest with
  | nil =>
    obtain ⟨rfl, rfl⟩ := Prod.mk.inj h
    rfl
  | cons c rest =>
    dsimp only at h ⊢
    rw [Lexeme.scan_moved]
    generalize Lexeme.scan place c rest = result at h
    cases result with
    | error error =>
      obtain ⟨rfl, rfl⟩ := Prod.mk.inj h
      simp only [Except.mapError, advance_moved]
      rfl
    | ok lexeme =>
      obtain ⟨rfl, rfl⟩ := Prod.mk.inj h
      simp only [Except.mapError, advance_moved]
      simp only [Except.map, Token.moved, Span.moved, Nat.add_sub_add_right]

end Cursor

namespace Stream

variable {R : Span → Span → Prop}

theorem moved_behind (count : Nat) (ts : List Token) (s : Stream) :
    (s.behind ts).moved count = (s.moved count).behind (ts.map (Token.moved count)) := by
  simp [moved, behind]

/-- A text further back has the same tokens further back. -/
theorem scanFrom_moved (offset count : Nat) (text : List Char) :
    scanFrom [] ⟨offset + count, text⟩ = (scanFrom [] ⟨offset, text⟩).moved count := by
  induction offset, text using Cursor.scan_induction with
  | error hscan =>
    rw [scanFrom_of_error hscan, scanFrom_of_error (Cursor.scan_moved hscan count)]
    rfl
  | ending _ hscan =>
    rw [scanFrom_of_endOfInput hscan rfl,
      scanFrom_of_endOfInput (Cursor.scan_moved hscan count) rfl]
    rfl
  | token _ hscan hkind ih =>
    rw [scanFrom_nil_of_token hscan hkind,
      scanFrom_nil_of_token (Cursor.scan_moved hscan count) hkind, moved_behind, ih]
    rfl

/-- A text that stands further back in another one. -/
theorem scanFrom_toList (offset : Nat) (text : String) :
    scanFrom [] ⟨offset, text.toList⟩ = (ofText text).moved offset := by
  have h := scanFrom_moved 0 offset text.toList
  rwa [Nat.zero_add] at h

/-! ### In the text -/

theorem behind_inside {low high : Nat} {ts : List Token} {s : Stream} (h : s.Inside low high)
    (hts : ∀ t ∈ ts, t.span.Inside low high) : (s.behind ts).Inside low high := by
  refine ⟨fun t ht => ?_, h.stop⟩
  exact (List.mem_append.1 ht).elim (hts t) (h.tokens t)

end Stream

/-- An error is about the text from the cursor on. -/
theorem Cursor.inside_of_scan_eq_error {offset : Nat} {text : List Char} {error : LexicalError}
    {next : Cursor} (h : (⟨offset, text⟩ : Cursor).scan = (.error error, next)) :
    error.span.Inside offset (offset + utf8Length text) := by
  obtain ⟨before, after, rfl, hspan⟩ := part_of_scan_eq_error h
  rw [hspan, utf8Length_append, utf8Length_append]
  exact ⟨Nat.le_add_right _ _, by dsimp only; omega⟩

theorem Stop.Inside.le_place {low high : Nat} {stop : Stop} (h : stop.Inside low high) :
    low ≤ stop.place := by
  cases stop with
  | endOfInput length | failure error => exact h.1

namespace Stream

variable {R : Span → Span → Prop}

theorem Inside.mono {low low' high high' : Nat} {s : Stream} (h : s.Inside low high)
    (hlow : low' ≤ low) (hhigh : high ≤ high') : s.Inside low' high' := by
  have hspan : ∀ span : Span, span.Inside low high → span.Inside low' high' :=
    fun span h => ⟨Nat.le_trans hlow h.1, Nat.le_trans h.2 hhigh⟩
  refine ⟨fun t ht => hspan _ (h.tokens t ht), ?_⟩
  obtain ⟨ts, stop⟩ := s
  cases stop with
  | endOfInput length => exact hspan _ h.stop
  | failure error => exact hspan _ h.stop

/-- Whatever the scanner names, it is a place in the text. -/
theorem inside_scanFrom (offset : Nat) (text : List Char) :
    (scanFrom [] ⟨offset, text⟩).Inside offset (offset + utf8Length text) := by
  induction offset, text using Cursor.scan_induction with
  | error hscan =>
    rw [scanFrom_of_error hscan]
    exact ⟨by simp, Cursor.inside_of_scan_eq_error hscan⟩
  | ending _ hscan =>
    rw [scanFrom_of_endOfInput hscan rfl]
    exact ⟨by simp, Nat.le_add_right _ _, Nat.le_refl _⟩
  | @token _ _ blanks lexeme _ hleads hscan hkind hrest =>
    -- the token lies in front of the rest, and the places in the rest lie behind it
    rw [scanFrom_nil_of_token hscan hkind]
    rw [utf8Length_append (blanks ++ lexeme), utf8Length_append]
    rw [utf8Length_append] at hrest
    refine behind_inside (hrest.mono (by omega) (by omega)) fun t ht => ?_
    obtain rfl := List.mem_singleton.1 ht
    rw [hleads.span_eq]
    exact ⟨Nat.le_add_right _ _, by dsimp only; omega⟩

theorem inside_ofText (text : String) : (ofText text).Inside 0 text.utf8ByteSize := by
  have h := inside_scanFrom 0 text.toList
  rwa [Nat.zero_add, utf8Length_toList] at h

/-- The scanner names one place behind another. -/
theorem ordered_scanFrom (offset : Nat) (text : List Char) :
    (scanFrom [] ⟨offset, text⟩).Ordered := by
  induction offset, text using Cursor.scan_induction with
  | error hscan =>
    rw [scanFrom_of_error hscan]
    exact ⟨.nil, nofun, nofun⟩
  | ending _ hscan =>
    rw [scanFrom_of_endOfInput hscan rfl]
    exact ⟨.nil, nofun, nofun⟩
  | @token offset t blanks lexeme after hleads hscan hkind ih =>
    rw [scanFrom_nil_of_token hscan hkind]
    -- the rest begins where the token ends
    have hinside := inside_scanFrom (offset + utf8Length (blanks ++ lexeme)) after
    have hend : t.span.offset + t.span.length = offset + utf8Length (blanks ++ lexeme) := by
      rw [hleads.span_eq, utf8Length_append, Nat.add_assoc]
    have hplace := hinside.stop.le_place
    have hpos : 0 < t.span.length := by
      obtain ⟨c, lexeme, rfl⟩ := List.exists_cons_of_ne_nil hleads.longest.spells.ne_nil
      rw [hleads.span_eq]
      exact utf8Length_lt_of_append_cons [] c lexeme
    refine ⟨.cons (fun u hu => ?_) ih.pairwise, List.forall_mem_cons.2 ⟨?_, ih.le_place⟩,
      List.forall_mem_cons.2 ⟨hpos, ih.length_pos⟩⟩
    · rw [hend]
      exact (hinside.tokens u hu).1
    · rw [hend]
      exact hplace

theorem ordered_ofText (text : String) : (ofText text).Ordered :=
  ordered_scanFrom 0 text.toList

/-- No two tokens of a stream are listed at one place. -/
theorem Ordered.nodup_spans {s : Stream} (h : s.Ordered) :
    (s.listing.map Token.span).Nodup := by
  have hne : ∀ t u : Token, 0 < t.span.length → t.span.offset + t.span.length ≤ u.span.offset →
      t.span ≠ u.span := by
    intro t u hpos hle heq
    rw [heq] at hpos hle
    omega
  rw [List.Nodup, List.pairwise_map, listing, List.pairwise_append]
  refine ⟨h.pairwise.imp_of_mem fun ht _ hle => hne _ _ (h.length_pos _ ht) hle, ?_, ?_⟩
  · rw [ending]
    split <;> simp
  · intro t ht u hu
    refine hne t u (h.length_pos t ht) ?_
    have hle := h.le_place t ht
    rw [ending] at hu
    split at hu
    next length hstop =>
      obtain rfl := List.mem_singleton.1 hu
      rw [hstop] at hle
      exact hle
    next => cases hu

/-- No token of a stream is listed twice. -/
theorem Ordered.nodup_listing {s : Stream} (h : s.Ordered) : s.listing.Nodup :=
  List.Pairwise.of_map Token.span (fun _ _ hne heq => hne (congrArg Token.span heq)) h.nodup_spans

/-! ### Streams that are alike -/

theorem Alike.behind {s s' : Stream} {ts us : List Token} (h : s.Alike R s')
    (hts : List.Forall₂ (Token.Alike R) ts us) : (s.behind ts).Alike R (s'.behind us) :=
  ⟨List.rel_append hts h.tokens, h.stop⟩

/-- A stream is like itself. -/
theorem alike_self {s : Stream} {low high : Nat} (h : s.Inside low high)
    (hR : ∀ span : Span, span.Inside low high → R span span) : s.Alike R s := by
  refine ⟨List.forall₂_same.2 fun t ht => ⟨rfl, rfl, hR _ (h.tokens t ht)⟩, ?_⟩
  obtain ⟨ts, stop⟩ := s
  cases stop with
  | endOfInput length => exact .endOfInput (hR _ h.stop)
  | failure error =>
    refine .failure ?_
    have hspan := hR _ h.stop
    cases error with
    | strayCharacter => exact .strayCharacter hspan
    | malformedNumeral => exact .malformedNumeral hspan
    | halfOperator => exact .halfOperator hspan
    | unknownWord => exact .unknownWord hspan

/-- A stream at one place is like the stream at another place. -/
theorem alike_moved (s : Stream) {count count' : Nat}
    (hR : ∀ span : Span, R (span.moved count) (span.moved count')) :
    (s.moved count).Alike R (s.moved count') := by
  refine ⟨?_, ?_⟩
  · rw [moved, moved, List.forall₂_map_left_iff, List.forall₂_map_right_iff]
    exact List.forall₂_same.2 fun t _ => ⟨rfl, rfl, hR _⟩
  · obtain ⟨ts, stop⟩ := s
    cases stop with
    | endOfInput length => exact .endOfInput (hR ⟨length, 0⟩)
    | failure error =>
      refine .failure ?_
      cases error with
      | strayCharacter => exact .strayCharacter (hR ⟨_, _⟩)
      | malformedNumeral span => exact .malformedNumeral (hR span)
      | halfOperator => exact .halfOperator (hR ⟨_, _⟩)
      | unknownWord => exact .unknownWord (hR ⟨_, _⟩)

end Stream

/-- A derivation further back. -/
theorem Derives.moved {x : Nonterminal} {ts : List Token} {e : Expr} {n : Nat}
    (h : Derives x ts e n) (count : Nat) :
    ∃ e', Derives x (ts.map (Token.moved count)) e' n ∧
      e.Alike (fun span span' => span' = span.moved count) e' := by
  refine h.alike ?_
  rw [List.forall₂_map_right_iff]
  exact List.forall₂_same.2 fun t _ => ⟨rfl, rfl, rfl⟩

end Reckoner
