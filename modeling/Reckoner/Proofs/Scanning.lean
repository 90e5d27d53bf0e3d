import Reckoner.Proofs.LongestLexeme
import Reckoner.Proofs.Reading.Step

/-!
# Scanning a text

A text that is scanned to its end is cut into blanks and the longest lexemes between them, and
every text that can be cut up in this way is scanned to its end, with these tokens.

## Main definitions

* `Token.Leads`: a token that stands, behind blanks, at the beginning of a text;
* `Cut offset text ts`: the text is cut into the lexemes of the tokens, and blanks.

## Main results

* `Cursor.leads_of_scan_eq_ok`, `Cursor.scan_of_leads`: what one step of the scanner reads;
* `Cursor.passes_of_scan_eq_error`: what it passes when it can read nothing;
* `Cursor.scan_induction`: induction along the tokens of a text;
* `Stream.scanFrom_eq_iff_cut`: what the scanner reads from a place on, up to the end.
-/

namespace Reckoner

@[simp]
theorem utf8Length_nil : utf8Length [] = 0 := rfl

/-- Counting on from a number of bytes adds this number. -/
theorem foldl_utf8Size (count : Nat) (xs : List Char) :
    xs.foldl (fun count c => count + c.utf8Size) count = count + utf8Length xs := by
  induction xs generalizing count with
  | nil => rfl
  | cons c xs ih => rw [utf8Length, List.foldl_cons, List.foldl_cons, ih, ih, Nat.zero_add,
      Nat.add_assoc]

@[simp]
theorem utf8Length_append (xs ys : List Char) :
    utf8Length (xs ++ ys) = utf8Length xs + utf8Length ys := by
  rw [utf8Length, List.foldl_append, foldl_utf8Size]
  rfl

theorem utf8Length_cons (c : Char) (xs : List Char) :
    utf8Length (c :: xs) = c.utf8Size + utf8Length xs := by
  rw [utf8Length, List.foldl_cons, foldl_utf8Size, Nat.zero_add]

/-- A character has at least one byte. -/
theorem utf8Length_lt_of_append_cons (before : List Char) (c : Char) (after : List Char) :
    utf8Length before < utf8Length (before ++ c :: after) := by
  have hpos := Char.utf8Size_pos c
  rw [utf8Length_append, utf8Length_cons]
  omega

theorem utf8Length_singleton (c : Char) : utf8Length [c] = c.utf8Size :=
  Nat.zero_add _

/-- Where all characters have one byte, sizes in bytes are lengths. -/
theorem utf8Length_of_single {text : List Char} (h : ∀ c ∈ text, c.utf8Size = 1) :
    utf8Length text = text.length := by
  induction text with
  | nil => rfl
  | cons c text ih =>
    rw [utf8Length_cons, h c (.head _), ih fun d hd => h d (.tail _ hd), List.length_cons,
      Nat.add_comm]

/-- The characters of ASCII have one byte. -/
theorem utf8Size_of_printed {c : Char} (h : c.toNat ≤ 126) : c.utf8Size = 1 :=
  Char.utf8Size_eq_one_iff.2 (UInt32.le_iff_toNat_le.2 (Nat.le_succ_of_le h))

/-- Digits and points have one byte each. -/
theorem utf8Size_of_isNumeral {c : Char} (h : Lexeme.isNumeral c) : c.utf8Size = 1 := by
  refine utf8Size_of_printed ?_
  rcases (Lexeme.isNumeral_iff c).1 h with hdigit | rfl
  · have hhigh := ((isDigit_iff c).1 hdigit).2
    omega
  · decide

/-- The size of a text in bytes is that of its characters. -/
theorem utf8Length_toList (text : String) : utf8Length text.toList = text.utf8ByteSize := by
  have hchars : ∀ chars : List Char, utf8Length chars = (String.ofList chars).utf8ByteSize := by
    intro chars
    induction chars with
    | nil => rfl
    | cons c chars ih =>
      rw [utf8Length_cons, ih, String.ofList_cons, String.utf8ByteSize_append,
        String.utf8ByteSize_singleton]
  rw [hchars, String.ofList_toList]

/-- The token stands at the beginning of the text `blanks ++ lexeme ++ after`, which itself begins
`offset` bytes further on in another text. -/
structure Token.Leads (token : Token) (offset : Nat) (blanks lexeme after : List Char) : Prop where
  /-- Only blanks stand in front of the token. -/
  blank : ∀ c ∈ blanks, isBlank c
  /-- The token is written as the longest lexeme in its place. -/
  longest : Longest token.kind lexeme after
  /-- The text of the token is the canonical one. -/
  canonical : CanonicalText token.kind lexeme token.text
  /-- The span of the token is the place of the lexeme. -/
  span_eq : token.span = ⟨offset + utf8Length blanks, utf8Length lexeme⟩

/-- The text, which begins `offset` bytes further on in another text, is cut into the lexemes of the
tokens and blanks between, in front of and behind them. -/
inductive Cut : Nat → List Char → List Token → Prop
  /-- Only blanks are left. -/
  | blank {offset : Nat} {text : List Char} (h : ∀ c ∈ text, isBlank c) : Cut offset text []
  /-- A token comes next. -/
  | token {offset : Nat} {token : Token} {blanks lexeme after : List Char} {ts : List Token}
      (h : token.Leads offset blanks lexeme after)
      (hrest : Cut (offset + utf8Length (blanks ++ lexeme)) after ts) :
      Cut offset (blanks ++ lexeme ++ after) (token :: ts)

/-- What a token leads does not begin with a decimal point. -/
theorem Token.Leads.ne_point_cons {token : Token} {offset : Nat}
    {blanks lexeme after : List Char} (h : token.Leads offset blanks lexeme after)
    (rest : List Char) : blanks ++ lexeme ++ after ≠ '.' :: rest := by
  intro htext
  -- the point would have to be a blank or the first character of a lexeme
  cases blanks with
  | cons c blanks =>
    obtain ⟨rfl, -⟩ := List.cons.inj htext
    exact absurd (h.blank '.' (.head _)) (by decide)
  | nil =>
    have hspells := h.longest.spells
    obtain ⟨c, lexeme, rfl⟩ := List.exists_cons_of_ne_nil hspells.ne_nil
    exact hspells.head_ne_point (List.cons.inj htext).1

/-- What can be cut up does not begin with a decimal point. -/
theorem Cut.ne_point_cons {offset : Nat} {text : List Char} {ts : List Token}
    (h : Cut offset text ts) (rest : List Char) : text ≠ '.' :: rest := by
  cases h with
  | blank hblank =>
    rintro rfl
    exact absurd (hblank '.' (.head _)) (by decide)
  | token hleads _ => exact hleads.ne_point_cons rest

namespace Cursor

variable {offset : Nat}

theorem advance_append (xs ys : List Char) :
    (⟨offset, xs ++ ys⟩ : Cursor).advance xs.length = ⟨offset + utf8Length xs, ys⟩ := by
  simp [advance]

theorem skipBlanks_append {blanks rest : List Char} (hblanks : ∀ c ∈ blanks, isBlank c)
    (hrest : ∀ c after, rest = c :: after → ¬isBlank c) :
    (⟨offset, blanks ++ rest⟩ : Cursor).skipBlanks = ⟨offset + utf8Length blanks, rest⟩ := by
  rw [skipBlanks, takeWhile_append_of_head hblanks hrest, advance_append]

/-- A text begins with blanks, up to another character or its end. -/
theorem exists_blanks (text : List Char) : ∃ blanks rest, text = blanks ++ rest ∧
    (∀ c ∈ blanks, isBlank c) ∧ ∀ c after, rest = c :: after → ¬isBlank c := by
  refine ⟨text.takeWhile isBlank, text.dropWhile isBlank, List.takeWhile_append_dropWhile.symm,
    List.all_eq_true.1 List.all_takeWhile, fun c after h => ?_⟩
  have hhead := List.head?_dropWhile_not isBlank text
  rw [h] at hhead
  simpa using hhead

/-- At the end of a text the scanner reads the end. -/
theorem scan_of_blank {text : List Char} (h : ∀ c ∈ text, isBlank c) :
    (⟨offset, text⟩ : Cursor).scan =
      (.ok (.endOfInput (offset + utf8Length text)), ⟨offset + utf8Length text, []⟩) := by
  have hskip : (⟨offset, text ++ []⟩ : Cursor).skipBlanks = ⟨offset + utf8Length text, []⟩ :=
    skipBlanks_append h (by simp)
  rw [List.append_nil] at hskip
  simp only [scan, hskip]

/-- The scanner reads a token that leads a text, if no decimal point stands behind it. -/
theorem scan_of_leads {token : Token} {blanks lexeme after : List Char}
    (h : token.Leads offset blanks lexeme after) (hpoint : ∀ rest, after ≠ '.' :: rest) :
    (⟨offset, blanks ++ lexeme ++ after⟩ : Cursor).scan =
      (.ok token, ⟨offset + utf8Length (blanks ++ lexeme), after⟩) := by
  obtain ⟨c, chars, rfl⟩ := List.exists_cons_of_ne_nil h.longest.spells.ne_nil
  -- the blanks end where the lexeme begins
  have hskip : (⟨offset, blanks ++ c :: (chars ++ after)⟩ : Cursor).skipBlanks =
      ⟨offset + utf8Length blanks, c :: (chars ++ after)⟩ := by
    refine skipBlanks_append h.blank fun d rest hd => ?_
    obtain ⟨rfl, -⟩ := List.cons.inj hd
    exact h.longest.spells.not_isBlank_of_mem (.head _)
  have hscan : Lexeme.scan (offset + utf8Length blanks) c (chars ++ after) =
      .ok ⟨token.kind, token.text, (c :: chars).length⟩ :=
    Lexeme.scan_of_longest rfl h.longest h.canonical hpoint
  have hadvance : (⟨offset + utf8Length blanks, c :: (chars ++ after)⟩ : Cursor).advance
      (c :: chars).length = _ := advance_append (c :: chars) after
  rw [scan, List.append_assoc, List.cons_append, hskip]
  simp only [hscan, hadvance, Nat.add_sub_cancel_left, ← h.span_eq]
  rw [utf8Length_append, Nat.add_assoc]

/-- What the scanner reads is the end of a text or a token that leads it. -/
theorem leads_of_scan_eq_ok {text : List Char} {token : Token} {next : Cursor}
    (h : (⟨offset, text⟩ : Cursor).scan = (.ok token, next)) :
    ((∀ c ∈ text, isBlank c) ∧ token = .endOfInput (offset + utf8Length text)) ∨
      ∃ blanks lexeme after, text = blanks ++ lexeme ++ after ∧
        token.Leads offset blanks lexeme after ∧
        next = ⟨offset + utf8Length (blanks ++ lexeme), after⟩ := by
  obtain ⟨blanks, rest, rfl, hblanks, hrest⟩ := exists_blanks text
  have hskip : (⟨offset, blanks ++ rest⟩ : Cursor).skipBlanks = _ :=
    skipBlanks_append hblanks hrest
  rw [scan, hskip] at h
  cases rest with
  | nil =>
    -- all of the text is blank
    obtain ⟨htoken, -⟩ := Prod.mk.inj h
    refine .inl ⟨by simpa using hblanks, ?_⟩
    rw [List.append_nil]
    exact (Except.ok.inj htoken).symm
  | cons c rest =>
    dsimp only at h
    split at h
    next => cases h
    next lexeme hscan =>
      obtain ⟨chars, after, htext, hlength, hlongest, hcanonical⟩ :=
        Lexeme.longest_of_scan_eq_ok hscan
      rw [htext, ← hlength, advance_append] at h
      obtain ⟨htoken, rfl⟩ := Prod.mk.inj h
      obtain rfl := Except.ok.inj htoken
      refine .inr ⟨blanks, chars, after, ?_, ⟨hblanks, hlongest, hcanonical, ?_⟩, ?_⟩
      · rw [htext, List.append_assoc]
      · rw [Nat.add_sub_cancel_left]
      · rw [utf8Length_append, Nat.add_assoc]

/-- An error is one of the first character that is no blank, and this character is passed. -/
theorem passes_of_scan_eq_error {text : List Char} {error : LexicalError} {next : Cursor}
    (h : (⟨offset, text⟩ : Cursor).scan = (.error error, next)) :
    ∃ blanks c, text = blanks ++ c :: next.rest ∧ (∀ b ∈ blanks, isBlank b) ∧ ¬isBlank c ∧
      Lexeme.scan (offset + utf8Length blanks) c next.rest = .error error ∧
      next.offset = offset + utf8Length (blanks ++ [c]) := by
  obtain ⟨blanks, rest, rfl, hblanks, hrest⟩ := exists_blanks text
  rw [scan, skipBlanks_append hblanks hrest] at h
  cases rest with
  | nil => cases h
  | cons c rest =>
    dsimp only at h
    split at h
    next error' hscan =>
      obtain ⟨herror, rfl⟩ := Prod.mk.inj h
      obtain rfl := Except.error.inj herror
      have hadvance : (⟨offset + utf8Length blanks, c :: rest⟩ : Cursor).advance 1 = _ :=
        advance_append [c] rest
      rw [hadvance]
      refine ⟨blanks, c, rfl, hblanks, hrest c rest rfl, hscan, ?_⟩
      rw [utf8Length_append, Nat.add_assoc]
    next => cases h

/-- Induction along the tokens of a text. It ends at an error or at the end of the text, and goes on
behind any other token, which takes characters off the text. -/
@[elab_as_elim]
theorem scan_induction {motive : Nat → List Char → Prop}
    (error : ∀ {offset text error next},
      (⟨offset, text⟩ : Cursor).scan = (.error error, next) → motive offset text)
    (ending : ∀ {offset text}, (∀ c ∈ text, isBlank c) →
      (⟨offset, text⟩ : Cursor).scan =
        (.ok (.endOfInput (offset + utf8Length text)), ⟨offset + utf8Length text, []⟩) →
      motive offset text)
    (token : ∀ {offset token blanks lexeme after}, token.Leads offset blanks lexeme after →
      (⟨offset, blanks ++ lexeme ++ after⟩ : Cursor).scan =
        (.ok token, ⟨offset + utf8Length (blanks ++ lexeme), after⟩) →
      token.kind ≠ .endOfInput → motive (offset + utf8Length (blanks ++ lexeme)) after →
      motive offset (blanks ++ lexeme ++ after))
    (offset : Nat) (text : List Char) : motive offset text := by
  induction hk : text.length using Nat.strongRecOn generalizing offset text with
  | ind k ih =>
    rcases hscan : (⟨offset, text⟩ : Cursor).scan with ⟨error' | t, next⟩
    · exact error hscan
    rcases leads_of_scan_eq_ok hscan with ⟨hblank, -⟩ | ⟨blanks, lexeme, after, rfl, hleads, rfl⟩
    · exact ending hblank (scan_of_blank hblank)
    · have hkind := hleads.longest.spells.ne_endOfInput
      exact token hleads hscan hkind (ih _ (hk ▸ length_rest_lt_of_scan hscan hkind) _ _ rfl)

end Cursor

namespace Stream

variable {seen : List Token} {cursor next : Cursor}

/-- An error ends a stream. -/
theorem scanFrom_of_error {error : LexicalError} (h : cursor.scan = (.error error, next)) :
    scanFrom seen cursor = ⟨seen.reverse, .failure error⟩ := by
  rw [scanFrom]
  split
  next _ _ hscan =>
    cases h.symm.trans hscan
    rfl
  next _ _ hscan => cases h.symm.trans hscan

/-- The end of the text ends a stream. -/
theorem scanFrom_of_endOfInput {token : Token} (h : cursor.scan = (.ok token, next))
    (hkind : token.kind = .endOfInput) :
    scanFrom seen cursor = ⟨seen.reverse, .endOfInput token.span.offset⟩ := by
  rw [scanFrom]
  split
  next _ _ hscan => cases h.symm.trans hscan
  next _ _ hscan =>
    cases h.symm.trans hscan
    exact dif_pos hkind

/-- Any other token is part of the stream. -/
theorem scanFrom_of_token {token : Token} (h : cursor.scan = (.ok token, next))
    (hkind : token.kind ≠ .endOfInput) : scanFrom seen cursor = scanFrom (token :: seen) next := by
  rw [scanFrom]
  split
  next _ _ hscan => cases h.symm.trans hscan
  next _ _ hscan =>
    cases h.symm.trans hscan
    exact dif_neg hkind

/-- What was read before stands in front of what is read from a place on. -/
theorem scanFrom_eq_behind (seen : List Token) (cursor : Cursor) :
    scanFrom seen cursor = (scanFrom [] cursor).behind seen.reverse := by
  obtain ⟨offset, text⟩ := cursor
  induction offset, text using Cursor.scan_induction generalizing seen with
  | error hscan =>
    rw [scanFrom_of_error hscan, scanFrom_of_error hscan]
    simp [behind]
  | ending _ hscan =>
    rw [scanFrom_of_endOfInput hscan rfl, scanFrom_of_endOfInput hscan rfl]
    simp [behind]
  | @token _ t _ _ _ _ hscan hkind ih =>
    rw [scanFrom_of_token hscan hkind, scanFrom_of_token hscan hkind, ih (t :: seen), ih [t]]
    simp

/-- Reading one token more. -/
theorem scanFrom_nil_of_token {token : Token} (h : cursor.scan = (.ok token, next))
    (hkind : token.kind ≠ .endOfInput) :
    scanFrom [] cursor = (scanFrom [] next).behind [token] := by
  rw [scanFrom_of_token h hkind, scanFrom_eq_behind]
  rfl

theorem ofText_ofList (chars : List Char) :
    ofText (String.ofList chars) = scanFrom [] ⟨0, chars⟩ := by
  rw [ofText, Cursor.start, String.toList_ofList]

/-- Each token of a text leads a part of it. -/
theorem exists_leads {offset : Nat} {text : List Char} {t : Token}
    (h : t ∈ (scanFrom [] ⟨offset, text⟩).tokens) :
    ∃ before blanks lexeme after, text = before ++ (blanks ++ lexeme ++ after) ∧
      t.Leads (offset + utf8Length before) blanks lexeme after := by
  induction offset, text using Cursor.scan_induction with
  | error hscan =>
    rw [scanFrom_of_error hscan] at h
    cases h
  | ending _ hscan =>
    rw [scanFrom_of_endOfInput hscan rfl] at h
    cases h
  | @token offset _ blanks lexeme _ hleads hscan hkind ih =>
    rw [scanFrom_nil_of_token hscan hkind] at h
    rcases List.mem_cons.1 h with rfl | h
    · exact ⟨[], blanks, lexeme, _, rfl, hleads⟩
    · obtain ⟨before, blanks', lexeme', after, rfl, hrest⟩ := ih h
      refine ⟨blanks ++ lexeme ++ before, blanks', lexeme', after, by simp, ?_⟩
      rw [utf8Length_append (blanks ++ lexeme) before, ← Nat.add_assoc]
      exact hrest

/-- A stream that ends well holds the tokens into which the text can be cut, and the other way
round. -/
theorem scanFrom_eq_iff_cut {offset length : Nat} {text : List Char} {ts : List Token} :
    scanFrom [] ⟨offset, text⟩ = ⟨ts, .endOfInput length⟩ ↔
      Cut offset text ts ∧ length = offset + utf8Length text := by
  constructor
  · intro h
    induction offset, text using Cursor.scan_induction generalizing ts with
    | error hscan =>
      rw [scanFrom_of_error hscan] at h
      cases h
    | ending hblank hscan =>
      rw [scanFrom_of_endOfInput hscan rfl] at h
      obtain ⟨rfl, hlength⟩ := Stream.mk.inj h
      exact ⟨.blank hblank, (Stop.endOfInput.inj hlength).symm⟩
    | @token offset _ blanks lexeme after hleads hscan hkind ih =>
      rw [scanFrom_nil_of_token hscan hkind] at h
      generalize hnext : scanFrom [] ⟨offset + utf8Length (blanks ++ lexeme), after⟩ = rest at h
      obtain ⟨us, stop⟩ := rest
      obtain ⟨rfl, rfl⟩ := Stream.mk.inj h
      obtain ⟨hcut, rfl⟩ := ih hnext
      exact ⟨.token hleads hcut, by rw [utf8Length_append (blanks ++ lexeme), Nat.add_assoc]⟩
  · rintro ⟨h, rfl⟩
    induction h with
    | blank hblank =>
      rw [scanFrom_of_endOfInput (Cursor.scan_of_blank hblank) rfl]
      rfl
    | @token offset token blanks lexeme after ts hleads hrest ih =>
      -- what is cut up behind the token has no decimal point in front
      have hscan := Cursor.scan_of_leads hleads hrest.ne_point_cons
      have hkind : token.kind ≠ .endOfInput := hleads.longest.spells.ne_endOfInput
      rw [scanFrom_nil_of_token hscan hkind, ih]
      simp [behind, Nat.add_assoc]

end Stream

end Reckoner
