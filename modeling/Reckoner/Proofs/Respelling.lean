import Reckoner.Proofs.Literals
import Reckoner.Proofs.PrintedTrees
import Reckoner.Proofs.Printing

/-!
# The texts of tokens scan back

The text of a token is a lexeme of the kind of the token, unless it is a number that is written with
an exponent or as a word. So the texts of the tokens of a text, with single blanks between them, are
scanned as tokens of the same kinds and texts. Only π is written as its digits, and is scanned as a
number from then on, which neither the reader nor the evaluator tells apart.

## Main definitions

* `Token.joined ts`: the texts of tokens with single blanks between them;
* `Token.Respells t u`: what the token `t` becomes when its text is scanned;
* `Token.Legible`: the text of a token is a lexeme;
* `SamePlace ts us`: the spans of the tokens that have the same number in two lists.

## Main results

* `Token.legible_of_mem`: which tokens of a text are legible;
* `Stream.scanFrom_joined`: legible tokens are scanned from their texts;
* `Token.Respells.alikeBut`: the trees differ at leaves that stand for π at most;
* `joined_scans_back`: texts, kinds, trees and values after one such turn, and after many.
-/

namespace Reckoner

/-- The kind of a token when its text is scanned: π is written as its digits. -/
def Kind.respelled : Kind → Kind
  | .pi => .number
  | kind => kind

namespace Token

/-- The texts of tokens, with single blanks between them. -/
def joined (ts : List Token) : String :=
  " ".intercalate (ts.map Token.text)

/-- What a token becomes when its text is scanned, but for its place. -/
structure Respells (t u : Token) : Prop where
  /-- The kind is the same, unless the token stands for π. -/
  kind_eq : u.kind = t.kind.respelled
  /-- The text is the same. -/
  text_eq : u.text = t.text

/-- The text of the token is that of its kind or, for a number, one without a sign and without an
exponent. -/
inductive Legible (t : Token) : Prop
  /-- A number. -/
  | number (hkind : t.kind = .number) (htext : PlainText t.text) : Legible t
  /-- Any other token. -/
  | vocabulary (hkind : t.kind ∈ Kind.vocabulary) (htext : t.text = Lexeme.textOfKind t.kind) :
      Legible t

end Token

/-- The two spans are those of the tokens that have the same number in two lists. -/
def SamePlace (ts us : List Token) (span span' : Span) : Prop :=
  ∃ (k : Nat) (t u : Token), ts[k]? = some t ∧ us[k]? = some u ∧ t.span = span ∧ u.span = span'

/-! ### One token -/

theorem Kind.respelled_of_ne {kind : Kind} (h : kind ≠ .pi) : kind.respelled = kind := by
  unfold respelled
  split
  · exact absurd rfl h
  · rfl

theorem plainText_piText : PlainText Lexeme.piText :=
  ⟨piValue, false, 0x1921FB54442D18 * 2 ^ (1023 : Nat), by decide +kernel, Lexeme.piText_eq,
    by decide, by decide⟩

/-- The text of a finite number without a sign is plain, unless it has an exponent. -/
theorem plainText_text {x : Float} {units : Nat} (hparts : Binary64.parts x = .finite false units)
    (he : 'e' ∉ (Number.text x).toList) : PlainText (Number.text x) := by
  have hchars := Number.toList_text hparts
  refine ⟨x, false, units, hparts, rfl, fun hminus => ?_, he⟩
  rw [hchars] at he hminus
  -- digits and points are left, and no sign
  have hspells := (Layout.magnitudeText_magnitude (by decide) units).spells he
  rcases hspells.isDigit_or_eq_point hminus with hdigit | hpoint
  · exact absurd hdigit (by decide)
  · exact absurd hpoint (by decide)

/-- The text of a numeral is plain, unless it is the word for infinity or has an exponent. -/
theorem plainText_of_canonicalText {lexeme : List Char} {text : String}
    (h : Spells .number lexeme) (hcanonical : CanonicalText .number lexeme text)
    (he : 'e' ∉ text.toList) (hinf : text ≠ "inf") : PlainText text := by
  obtain ⟨x, hread, rfl⟩ := hcanonical
  obtain ⟨d, hdecimal, -⟩ := h.exists_decimal
  obtain rfl : x = d.toFloat false := Option.some.inj (hread.symm.trans hdecimal)
  have hfloat : d.toFloat false = Binary64.ofFraction false d.numerator d.denominator := rfl
  rw [hfloat] at he hinf ⊢
  rcases Nat.lt_or_ge (Binary64.nearestUnits (d.numerator * Binary64.unitsInOne) d.denominator)
    Binary64.overflowUnits with hlt | hle
  · exact plainText_text (Binary64.exists_parts_ofFraction hlt).1 he
  · refine absurd ?_ hinf
    rw [Binary64.ofFraction_of_le hle]
    decide +kernel

namespace Token

variable {t u : Token}

/-- A token of a text is legible, unless it is infinite or has an exponent. -/
theorem legible_of_mem {text : String} (h : t ∈ (Stream.ofText text).tokens)
    (hplain : t.kind = .number → 'e' ∉ t.text.toList ∧ t.text ≠ "inf") : t.Legible := by
  obtain ⟨_, _, lexeme, _, -, hleads⟩ := Stream.exists_leads h
  have hspells := hleads.longest.spells
  have hcanonical := hleads.canonical
  rcases hspells.number_or_mem_vocabulary with hkind | hkind
  · obtain ⟨he, hinf⟩ := hplain hkind
    rw [hkind] at hspells hcanonical
    exact .number hkind (plainText_of_canonicalText hspells hcanonical he hinf)
  · exact .vocabulary hkind ((Lexeme.canonicalText_iff hkind lexeme _).1 hcanonical)

/-- The text of a legible token is a lexeme, of which it is the text. -/
theorem Legible.spells (h : t.Legible) :
    Spells t.kind.respelled t.text.toList ∧
      CanonicalText t.kind.respelled t.text.toList t.text := by
  have hplain : ∀ {text : String}, PlainText text →
      Spells .number text.toList ∧ CanonicalText .number text.toList text := fun htext =>
    have hwritten := @written_of_plainText ⟨.number, _, ⟨0, 0⟩⟩ rfl htext
    ⟨hwritten.spells, hwritten.canonical⟩
  cases h with
  | number hkind htext =>
    rw [hkind]
    exact hplain htext
  | vocabulary hkind htext =>
    by_cases hpi : t.kind = .pi
    · rw [htext, hpi]
      exact hplain plainText_piText
    · -- any other text is the symbol of its kind, which is one of the lexemes of the kind
      have hall : ∀ kind ∈ Kind.vocabulary, kind ≠ .pi →
          Lexeme.textOfKind kind = kind.symbol ∧
            kind.symbol.toList.map Char.toUpper = kind.symbol.toList := by decide +kernel
      obtain ⟨hsymbol, hupper⟩ := hall t.kind hkind hpi
      rw [Kind.respelled_of_ne hpi]
      refine ⟨?_, (Lexeme.canonicalText_iff hkind _ _).2 htext⟩
      rw [spells_iff_of_mem_vocabulary hkind, htext, hsymbol, hupper]

end Token

/-! ### All tokens -/

namespace Stream

/-- Behind a text a single blank stands, with other texts behind it, or nothing. -/
theorem exists_behind_text (text : String) (texts : List String) :
    ∃ back, (" ".intercalate (text :: texts)).toList = text.toList ++ back ∧
      Seam text.toList back ∧ ∀ offset, ∃ offset', scanFrom [] ⟨offset, back⟩ =
        scanFrom [] ⟨offset', (" ".intercalate texts).toList⟩ := by
  cases texts with
  | nil =>
    refine ⟨[], ?_, Seam.of_nil_right _, fun offset => ⟨offset, rfl⟩⟩
    rw [String.intercalate_singleton, List.append_nil]
  | cons text' texts =>
    have hblank : isBlank ' ' := by decide
    refine ⟨' ' :: (" ".intercalate (text' :: texts)).toList, ?_,
      (apart_of_isBlank hblank).seam_cons _ _, fun offset => ⟨offset + utf8Length [' '], ?_⟩⟩
    · rw [String.intercalate_cons_cons, String.toList_append, String.toList_append,
        List.append_assoc]
      rfl
    · exact scanFrom_blanks (List.forall_mem_singleton.2 hblank) offset _

/-- Legible tokens are scanned from their texts, with only blanks behind the last one. -/
theorem scanFrom_joined {ts : List Token} (hts : ∀ t ∈ ts, t.Legible) {rest : List String}
    (hrest : ∀ c ∈ (" ".intercalate rest).toList, isBlank c) (offset : Nat) :
    ∃ us length,
      scanFrom [] ⟨offset, (" ".intercalate (ts.map Token.text ++ rest)).toList⟩ =
        ⟨us, .endOfInput length⟩ ∧ List.Forall₂ Token.Respells ts us := by
  induction ts generalizing offset with
  | nil =>
    rw [List.map_nil, List.nil_append]
    exact ⟨[], _, scanFrom_of_endOfInput (Cursor.scan_of_blank hrest) rfl, .nil⟩
  | cons t ts ih =>
    obtain ⟨ht, hts⟩ := List.forall_mem_cons.1 hts
    obtain ⟨hspells, hcanonical⟩ := ht.spells
    obtain ⟨back, htext, hseam, hback⟩ := exists_behind_text t.text (ts.map Token.text ++ rest)
    obtain ⟨offset', hback⟩ := hback (offset + utf8Length t.text.toList)
    obtain ⟨us, length, hs, hus⟩ := ih hts offset'
    -- the blank behind the text ends its lexeme, and the induction goes on behind the blank
    have hscan := @scanFrom_lexeme_append t.kind.respelled [] t.text.toList back t.text nofun
      hspells hcanonical hseam offset
    rw [List.nil_append, hback, hs] at hscan
    rw [List.map_cons, List.cons_append, htext]
    exact ⟨⟨t.kind.respelled, t.text, _⟩ :: us, length, hscan, .cons ⟨rfl, rfl⟩ hus⟩

end Stream

/-! ### Trees and values -/

/-- The leaves have one value, and one of them is π where the other one is a number. -/
def PiAsDigits (e e' : Expr) : Prop :=
  PiForNumber e e' ∧ ∃ x, e.value = .ok x ∧ e'.value = .ok x

namespace Token.Respells

variable {t u : Token} {ts us : List Token}

/-- The digits of π have its value. -/
theorem piAsDigits (h : t.Respells u) (ht : t.Legible) (hpi : t.kind = .pi) :
    PiAsDigits (.literal t) (.literal u) := by
  have htext : t.text = Number.text piValue := by
    cases ht with
    | number hkind => cases hpi.symm.trans hkind
    | vocabulary _ htext => rw [htext, hpi, ← Lexeme.piText_eq, Lexeme.textOfKind]
  refine ⟨.pi hpi ?_ h.text_eq.symm, piValue, value_literal htext,
    value_literal (h.text_eq.trans htext)⟩
  rw [h.kind_eq, hpi]
  rfl

/-- A token that is scanned from its text is alike, or it is a number in the place of π. -/
theorem alikeBut {R : Span → Span → Prop} (h : t.Respells u) (ht : t.Legible)
    (hplace : R t.span u.span) : t.AlikeBut PiAsDigits R u := by
  have hkind := h.kind_eq
  by_cases hpi : t.kind = .pi
  · rw [hpi] at hkind
    exact .inr ⟨.inr hpi, .inl hkind, h.piAsDigits ht hpi⟩
  · rw [Kind.respelled_of_ne hpi] at hkind
    exact .inl ⟨hkind.symm, h.text_eq.symm, hplace⟩

/-- Tokens that are scanned from their texts correspond by their numbers. -/
theorem forall₂_alikeBut (h : List.Forall₂ Respells ts us) (hts : ∀ t ∈ ts, t.Legible) :
    List.Forall₂ (Token.AlikeBut PiAsDigits (SamePlace ts us)) ts us := by
  rw [List.forall₂_iff_get] at h ⊢
  obtain ⟨hlength, hall⟩ := h
  refine ⟨hlength, fun k ht hu => (hall k ht hu).alikeBut (hts _ (List.get_mem _ _)) ?_⟩
  exact ⟨k, _, _, List.getElem?_eq_getElem ht, List.getElem?_eq_getElem hu, rfl, rfl⟩

end Token.Respells

/-- A text is an expression if its tokens are those of one, scanned from their texts. It is printed
in the same way and has the same value, or lacks one at the token of the same number. -/
theorem exists_parse_of_respells {text text' : String} {e : Expr} {us : List Token} {length : Nat}
    (h : (parse text).result = .ok e) (hs' : Stream.ofText text' = ⟨us, .endOfInput length⟩)
    (hlegible : ∀ t ∈ (Stream.ofText text).tokens, t.Legible)
    (hus : List.Forall₂ Token.Respells (Stream.ofText text).tokens us) :
    ∃ e', (parse text').result = .ok e' ∧ e'.render = e.render ∧
      Agree (Failure.Alike (SamePlace (Stream.ofText text).tokens us))
        (valueOf text) (valueOf text') := by
  obtain ⟨ts, length, n, hs, hderives, hn, hlimit⟩ := exists_derives_of_parse_eq_ok h
  rw [hs] at hus hlegible ⊢
  obtain ⟨e', hderives', halike⟩ :=
    hderives.alikeBut (Token.Respells.forall₂_alikeBut hus hlegible)
  have hheight : e.height = e'.height := by
    refine halike.height_eq ?_
    rintro a b ⟨hpi, -⟩
    cases hpi with
    | pi | number => rfl
  -- the limits are kept, since neither the derivation nor the tree has become higher
  rcases parse_of_derives hs' hderives' with ⟨-, -, h'⟩ | ⟨hbeyond, -⟩
  · have hrender : e.render = e'.render :=
      (halike.mono (fun _ _ hpi => hpi.1) fun _ _ _ => trivial).render_eq
    refine ⟨e', h', hrender.symm, agree_valueOf_of_agree_value h h' (halike.agree_value ?_)⟩
    rintro a b ⟨-, x, ha, hb⟩
    rw [ha, hb]
    exact .ok x
  · omega

/-! ### The texts of the tokens of a text -/

/-- With or without the token that stands for the end, the texts are those of the other tokens, and
only blanks come behind them. -/
theorem exists_texts_eq {pick : Stream → List Token}
    (hpick : pick = Stream.tokens ∨ pick = Stream.listing) :
    ∃ rest : List String, (∀ c ∈ (" ".intercalate rest).toList, isBlank c) ∧
      ∀ (s : Stream) (length : Nat), s.stop = .endOfInput length →
        (pick s).map Token.text = s.tokens.map Token.text ++ rest := by
  have hnone : ∀ c ∈ "".toList, isBlank c := by simp
  rcases hpick with rfl | rfl
  · refine ⟨[], ?_, fun s length _ => (List.append_nil _).symm⟩
    rwa [String.intercalate_nil]
  · refine ⟨[""], by rwa [String.intercalate_singleton], fun s length hstop => ?_⟩
    unfold Stream.listing Stream.ending
    rw [hstop, List.map_append]
    rfl

/-- The texts of tokens scan back. Let the text be scanned to its end, with no number that is
infinite or has an exponent. Then the texts of its tokens, with single blanks between them, are
scanned to tokens of the same kinds and texts, but for π, which becomes a number. The texts of these
tokens make the same text once more. If the text is an expression, so is the other one. It is
printed in the same way and has the same value, or it has none for the same reason, at the token of
the same number. All this holds with the token that stands for the end and without it. -/
theorem joined_scans_back {text : String} {length : Nat} {pick : Stream → List Token}
    (hpick : pick = Stream.tokens ∨ pick = Stream.listing)
    (hstop : (Stream.ofText text).stop = .endOfInput length)
    (hplain : ∀ t ∈ (Stream.ofText text).tokens,
      t.kind = .number → 'e' ∉ t.text.toList ∧ t.text ≠ "inf") :
    let s := Stream.ofText text
    let text' := Token.joined (pick s)
    let s' := Stream.ofText text'
    (∃ length', s'.stop = .endOfInput length') ∧
      List.Forall₂ Token.Respells s.tokens s'.tokens ∧
      Token.joined (pick s') = text' ∧
      ∀ e, (parse text).result = .ok e → ∃ e', (parse text').result = .ok e' ∧
        e'.render = e.render ∧
        Agree (Failure.Alike (SamePlace s.tokens s'.tokens)) (valueOf text) (valueOf text') := by
  intro s text' s'
  obtain ⟨rest, hrest, hpick⟩ := exists_texts_eq hpick
  have hlegible : ∀ t ∈ s.tokens, t.Legible := fun t ht => Token.legible_of_mem ht (hplain t ht)
  obtain ⟨us, length', hs', hus⟩ := Stream.scanFrom_joined hlegible hrest 0
  rw [← hpick s length hstop] at hs'
  have hs' : s' = ⟨us, .endOfInput length'⟩ := hs'
  have htexts : us.map Token.text = s.tokens.map Token.text := by
    rw [← List.forall₂_eq_eq_eq, List.forall₂_map_left_iff, List.forall₂_map_right_iff]
    exact hus.flip.imp fun _ _ h => h.text_eq
  -- only the texts are joined, and these are what the second scan has kept
  have hagain : Token.joined (pick s') = text' := by
    have hpick' := hpick s' length' (by rw [hs'])
    show " ".intercalate _ = " ".intercalate _
    rw [hpick', hpick s length hstop, hs', htexts]
  rw [hs'] at hagain ⊢
  exact ⟨⟨length', rfl⟩, hus, hagain, fun e he => exists_parse_of_respells he hs' hlegible hus⟩

/-- The digits of π stand in the joined text, which still lacks a value at the fourth token. -/
theorem joined_scans_back_pi :
    let s := Stream.ofText "2*pi//0"
    let text' := "2.0 * 3.141592653589793 // 0.0"
    let s' := Stream.ofText text'
    s.stop = .endOfInput 7 ∧
      (∀ t ∈ s.tokens, t.kind = .number → 'e' ∉ t.text.toList ∧ t.text ≠ "inf") ∧
      Token.joined s.tokens = text' ∧ Token.joined s'.tokens = text' ∧
      Agree (Failure.Alike (SamePlace s.tokens s'.tokens)) (valueOf "2*pi//0") (valueOf text') := by
  intro s text' s'
  have hs : s = ⟨[⟨.number, "2.0", ⟨0, 1⟩⟩, ⟨.operator .times, "*", ⟨1, 1⟩⟩,
      ⟨.pi, "3.141592653589793", ⟨2, 2⟩⟩, ⟨.operator .floorDivide, "//", ⟨4, 2⟩⟩,
      ⟨.number, "0.0", ⟨6, 1⟩⟩], .endOfInput 7⟩ := by decide +kernel
  have hstop : s.stop = .endOfInput 7 := by rw [hs]
  have hplain : ∀ t ∈ s.tokens, t.kind = .number → 'e' ∉ t.text.toList ∧ t.text ≠ "inf" := by
    rw [hs]
    decide +kernel
  have hjoined : Token.joined s.tokens = text' := by
    rw [hs]
    decide +kernel
  obtain ⟨-, -, hagain, hvalue⟩ := joined_scans_back (.inl rfl) hstop hplain
  have hparse : (parse "2*pi//0").result = .ok (.binary ⟨.operator .floorDivide, "//", ⟨4, 2⟩⟩
      (.binary ⟨.operator .times, "*", ⟨1, 1⟩⟩ (.literal ⟨.number, "2.0", ⟨0, 1⟩⟩)
        (.literal ⟨.pi, "3.141592653589793", ⟨2, 2⟩⟩))
      (.literal ⟨.number, "0.0", ⟨6, 1⟩⟩)) := by decide +kernel
  obtain ⟨-, -, -, hagree⟩ := hvalue _ hparse
  rw [hjoined] at hagain hagree
  exact ⟨hstop, hplain, hjoined, hagain, hagree⟩

end Reckoner
