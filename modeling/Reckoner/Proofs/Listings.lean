import Reckoner.Proofs.Lexis
import Reckoner.Proofs.NumeralText
import Reckoner.Proofs.Scanning

/-!
# What is written for values and tokens

Values and tokens are written in the printed characters of ASCII, so that each of them stands on one
line, and no token but the one that stands for the end of a text is listed as that one is.

## Main definitions

* `IsPrinted c`: the character is one of ASCII that is printed and no blank;
* `IsNumeric c`: the character is one of those that values are written with.

## Main results

* `Number.isNumeric_text`, `Number.isPrinted_text`: what the text of a value is made of;
* `Stream.newline_not_mem_listing`: no listing of a token holds the end of a line;
* `Stream.getLast?_listing_iff`: which listings end with the end of the text.
-/

namespace Reckoner

/-- The character is one of ASCII that is printed and no blank. -/
def IsPrinted (c : Char) : Prop :=
  33 ≤ c.toNat ∧ c.toNat ≤ 126

instance : DecidablePred IsPrinted := fun c => inferInstanceAs (Decidable (33 ≤ c.toNat ∧ _))

/-- Whether all of some characters are printed is found by trying these, and no others. -/
theorem isPrinted_of_all {chars : List Char} (h : chars.all fun c => IsPrinted c) :
    ∀ c ∈ chars, IsPrinted c :=
  fun c hc => of_decide_eq_true (List.all_eq_true.1 h c hc)

/-! ### Values -/

/-- The character is one of those that values are written with. -/
def IsNumeric (c : Char) : Prop :=
  c.isDigit ∨ c ∈ ['.', '-', 'e', 'i', 'n', 'f', 'N', 'a']

theorem IsNumeric.isPrinted {c : Char} (h : IsNumeric c) : IsPrinted c := by
  rcases h with hdigit | hmem
  · obtain ⟨hlow, hhigh⟩ := (isDigit_iff c).1 hdigit
    exact ⟨by omega, by omega⟩
  · exact isPrinted_of_all (by decide) c hmem

/-- The text of a whole number is made of digits and a sign. -/
theorem isNumeric_of_mem_toString {n : Int} {c : Char} (h : c ∈ (toString n).toList) :
    IsNumeric c := by
  have hdigits : ∀ k, ∀ c ∈ decimalDigits k, IsNumeric c :=
    fun k c hc => .inl (isDigit_of_mem_decimalDigits hc)
  cases n with
  | ofNat k => exact hdigits k c (String.toList_ofList (l := decimalDigits k) ▸ h)
  | negSucc k =>
    have hstring : toString (Int.negSucc k) = "-" ++ String.ofList (decimalDigits (k + 1)) := rfl
    rw [hstring, String.toList_append, String.toList_ofList (l := decimalDigits (k + 1))] at h
    rcases List.mem_cons.1 h with rfl | h
    · exact .inr (by decide)
    · exact hdigits (k + 1) c h

theorem ExponentText.isNumeric {chars : List Char} (h : ExponentText chars) {c : Char}
    (hc : c ∈ chars) : IsNumeric c := by
  rcases h with rfl | ⟨exponent, rfl⟩
  · cases hc
  · rcases List.mem_cons.1 hc with rfl | hc
    · exact .inr (by decide)
    · exact isNumeric_of_mem_toString hc

theorem MagnitudeText.isNumeric {chars : List Char} (h : MagnitudeText chars) {c : Char}
    (hc : c ∈ chars) : IsNumeric c := by
  cases h with
  | whole _ hwhole htail =>
    rcases List.mem_append.1 hc with hc | hc
    · exact .inl (hwhole c hc)
    · exact htail.isNumeric hc
  | point _ hwhole hfraction htail =>
    rcases List.mem_append.1 hc with hc | hc
    · exact .inl (hwhole c hc)
    rcases List.mem_cons.1 hc with rfl | hc
    · exact .inr (by decide)
    rcases List.mem_append.1 hc with hc | hc
    · exact .inl (hfraction c hc)
    · exact htail.isNumeric hc

/-- The text of a value is made of digits and a few marks and letters. -/
theorem Number.isNumeric_text (x : Float) : ∀ c ∈ (Number.text x).toList, IsNumeric c := by
  have hmark : ∀ {chars : List Char},
      (chars.all fun c => c ∈ ['.', '-', 'e', 'i', 'n', 'f', 'N', 'a']) →
        ∀ c ∈ chars, IsNumeric c :=
    fun h c hc => .inr (of_decide_eq_true (List.all_eq_true.1 h c hc))
  have hsign : ∀ negative, ∀ c ∈ Layout.sign negative, IsNumeric c :=
    fun negative => hmark (by cases negative <;> decide)
  rw [Number.text, Layout.write, String.toList_ofList, Layout.chars]
  split
  next => exact hmark (by decide)
  next negative _ => exact List.forall_mem_append.2 ⟨hsign negative, hmark (by decide)⟩
  next negative units _ =>
    refine List.forall_mem_append.2 ⟨hsign negative, fun c hc => ?_⟩
    exact (Layout.magnitudeText_magnitude (by decide) units).isNumeric hc

/-- The text of a value is printed. -/
theorem Number.isPrinted_text (x : Float) : ∀ c ∈ (Number.text x).toList, IsPrinted c :=
  fun c hc => (Number.isNumeric_text x c hc).isPrinted

/-! ### Tokens -/

/-- The name of a kind is printed. -/
theorem Kind.isPrinted_name (kind : Kind) : ∀ c ∈ kind.name.toList, IsPrinted c := by
  apply isPrinted_of_all
  cases kind with
  | operator o => cases o <;> decide
  | function f => cases f <;> decide
  | number | pi | leftParen | rightParen | endOfInput => decide

/-- Only one kind has the name of the end of a text. -/
theorem Kind.name_eq_iff (kind : Kind) : kind.name = "END_OF_INPUT" ↔ kind = .endOfInput := by
  cases kind with
  | operator o => cases o <;> decide
  | function f => cases f <;> decide
  | number | pi | leftParen | rightParen | endOfInput => decide

/-- The text of a token is printed. -/
theorem CanonicalText.isPrinted {kind : Kind} {lexeme : List Char} {text : String}
    (h : CanonicalText kind lexeme text) (hspells : Spells kind lexeme) :
    ∀ c ∈ text.toList, IsPrinted c := by
  rcases hspells.number_or_mem_vocabulary with rfl | hkind
  · obtain ⟨x, -, rfl⟩ := h
    exact Number.isPrinted_text x
  · have hsymbol : ∀ c ∈ kind.symbol.toList, IsPrinted c := fun c hc =>
      have hprinted := Kind.printed_of_mem_symbol hkind c hc
      ⟨hprinted.1, hprinted.2.1⟩
    cases kind with
    | number | endOfInput => exact absurd hkind (by decide)
    | pi =>
      obtain rfl : text = Number.text piValue := h
      exact Number.isPrinted_text piValue
    | operator | function | leftParen | rightParen =>
      obtain rfl : text = Kind.symbol _ := h
      exact hsymbol

/-- Nothing but printed characters and the blank behind the name stands in the listing of a token
whose text is printed. -/
theorem Token.newline_not_mem_listing {t : Token} (h : ∀ c ∈ t.text.toList, IsPrinted c) :
    '\n' ∉ t.listing.toList := by
  have hname : '\n' ∉ t.kind.name.toList := fun hmem =>
    absurd (t.kind.isPrinted_name _ hmem) (by decide)
  have htext : '\n' ∉ t.text.toList := fun hmem => absurd (h _ hmem) (by decide)
  rw [listing]
  split
  next => exact hname
  next =>
    rw [String.toList_append, String.toList_append]
    intro hmem
    rcases List.mem_append.1 hmem with hmem | hmem
    · rcases List.mem_append.1 hmem with hmem | hmem
      · exact hname hmem
      · exact absurd hmem (by decide)
    · exact htext hmem

/-- The listing of the token that stands for the end of a text is that of no other token. -/
theorem Token.listing_eq_iff {t : Token} :
    t.listing = "END_OF_INPUT" ↔ t.kind = .endOfInput ∧ t.text = "" := by
  rw [listing]
  split
  next hempty =>
    rw [t.kind.name_eq_iff, and_iff_left (String.isEmpty_iff.1 hempty)]
  next hne =>
    -- the blank behind the name stands in no other place
    constructor
    · intro h
      have hblank : ' ' ∈ (t.kind.name ++ " " ++ t.text).toList := by simp
      rw [h] at hblank
      exact absurd hblank (by decide)
    · rintro ⟨-, hempty⟩
      exact absurd (String.isEmpty_iff.2 hempty) hne

namespace Stream

/-- Every token of a text is listed on one line. -/
theorem newline_not_mem_listing {text : String} {t : Token} (h : t ∈ (ofText text).listing) :
    '\n' ∉ t.listing.toList := by
  rcases List.mem_append.1 h with htoken | hending
  · obtain ⟨_, _, _, _, -, hleads⟩ := exists_leads htoken
    exact t.newline_not_mem_listing (hleads.canonical.isPrinted hleads.longest.spells)
  · rw [ending] at hending
    split at hending
    next =>
      obtain rfl := List.mem_singleton.1 hending
      exact Token.newline_not_mem_listing nofun
    next => cases hending

/-- The listing of a text ends with the end of the text if the scanner comes so far, and only
then. -/
theorem getLast?_listing_iff {text : String} :
    (ofText text).listing.getLast?.map Token.listing = some "END_OF_INPUT" ↔
      (ofText text).failure? = none := by
  have hkinds : ∀ t ∈ (ofText text).tokens, t.kind ≠ .endOfInput := by
    intro t ht
    obtain ⟨_, _, _, _, -, hleads⟩ := exists_leads ht
    exact hleads.longest.spells.ne_endOfInput
  rw [listing, ending, failure?]
  cases (ofText text).stop with
  | endOfInput length =>
    rw [List.getLast?_concat]
    exact iff_of_true rfl rfl
  | failure error =>
    rw [List.append_nil]
    refine iff_of_false (fun h => ?_) nofun
    obtain ⟨t, hlast, hlisting⟩ := Option.map_eq_some_iff.1 h
    exact hkinds t (List.mem_of_getLast? hlast) (Token.listing_eq_iff.1 hlisting).1

end Stream

end Reckoner
