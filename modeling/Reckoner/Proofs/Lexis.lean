import Reckoner.Token.Stream

/-!
# The lexical grammar

How tokens are written, as the documentation gives it. The grammar is stated on its own: it shares
the kinds of tokens, with their symbols, and the reading and writing of numbers with the scanner,
and none of its lookahead.

## Main definitions

* `Spells kind chars`: the characters are one way to write a token of the kind;
* `CanonicalText kind lexeme text`: the text of a token of the kind that is written in this way;
* `Longest kind lexeme after`: the lexeme is one of the kind, and none is longer in its place.

## Main results

* `spells_iff_of_mem_vocabulary`: a kind with a fixed spelling is written in any letter case;
* `Spells.unique`: a lexeme is one of a single kind;
* `Spells.not_isBlank_of_mem`: no blank stands in a lexeme;
* `Spells.head_ne_point`: no lexeme begins with a decimal point.
-/

namespace Reckoner

/-- The characters are one way to write a token of the kind. -/
inductive Spells : Kind → List Char → Prop
  /-- A numeral without a decimal point. -/
  | integer {digits : List Char} (hne : digits ≠ []) (hdigits : ∀ c ∈ digits, c.isDigit) :
      Spells .number digits
  /-- A numeral with a decimal point, in front of which a digit stands. -/
  | decimal {whole fraction : List Char} (hne : whole ≠ []) (hwhole : ∀ c ∈ whole, c.isDigit)
      (hfraction : ∀ c ∈ fraction, c.isDigit) : Spells .number (whole ++ '.' :: fraction)
  /-- The name of the constant, in any letter case. -/
  | pi {chars : List Char} (h : chars.map Char.toUpper = Kind.pi.symbol.toList) : Spells .pi chars
  /-- The name of a function, in any letter case. -/
  | function {f : Function} {chars : List Char} (h : chars.map Char.toUpper = f.symbol.toList) :
      Spells (.function f) chars
  /-- The symbol of an operator. -/
  | operator (o : Operator) : Spells (.operator o) o.symbol.toList
  /-- An opening parenthesis. -/
  | leftParen : Spells .leftParen ['(']
  /-- A closing parenthesis. -/
  | rightParen : Spells .rightParen [')']

/-- The float nearest to π, by its bits. -/
def piValue : Float :=
  Float.ofBits 0x400921FB54442D18

/-- The text of a token of the kind that is written as `lexeme`: a number is written anew, by its
value, and anything else as its symbol. -/
def CanonicalText (kind : Kind) (lexeme : List Char) (text : String) : Prop :=
  match kind with
  | .number => ∃ x, Number.read? (String.ofList lexeme) = some x ∧ text = Number.text x
  | .pi => text = Number.text piValue
  | kind => text = kind.symbol

/-- The lexeme is one of the kind, and nothing longer with which `lexeme ++ after` begins is a
lexeme of any kind. -/
structure Longest (kind : Kind) (lexeme after : List Char) : Prop where
  /-- The lexeme is one of the kind. -/
  spells : Spells kind lexeme
  /-- No lexeme in the same place is longer. -/
  length_le : ∀ other longer, Spells other longer → longer <+: lexeme ++ after →
    longer.length ≤ lexeme.length

/-- Upper case moves the lower-case letters of ASCII down by 32. -/
theorem toNat_toUpper (c : Char) : c.toUpper.toNat =
    if 97 ≤ c.toNat ∧ c.toNat ≤ 122 then c.toNat - 32 else c.toNat := by
  have hrange : ('a'.val ≤ c.val ∧ c.val ≤ 'z'.val) ↔ 97 ≤ c.toNat ∧ c.toNat ≤ 122 := Iff.rfl
  unfold Char.toUpper
  simp only [hrange]
  split
  next h =>
    -- the letter is moved by an addition modulo the size of a word
    show (c.val + ('A'.val - 'a'.val)).toNat = _
    have hval : c.val.toNat = c.toNat := rfl
    have hdistance : ('A'.val - 'a'.val).toNat = 2 ^ 32 - 32 := rfl
    rw [UInt32.toNat_add]
    omega
  next => rfl

/-- Upper case moves the lower-case letters of ASCII and nothing else. -/
theorem toUpper_cases (c : Char) :
    c.toUpper = c ∨ 97 ≤ c.toNat ∧ c.toNat ≤ 122 ∧ c.toUpper.toNat = c.toNat - 32 := by
  have hmoved := toNat_toUpper c
  by_cases h : 97 ≤ c.toNat ∧ c.toNat ≤ 122
  · rw [if_pos h] at hmoved
    exact .inr ⟨h.1, h.2, hmoved⟩
  · rw [if_neg h] at hmoved
    exact .inl (Char.toNat_inj.1 hmoved)

theorem isDigit_iff (c : Char) : c.isDigit ↔ 48 ≤ c.toNat ∧ c.toNat ≤ 57 := by
  rw [Char.isDigit, Bool.and_eq_true, decide_eq_true_iff, decide_eq_true_iff]
  exact Iff.rfl

/-- A character that is printed leaves no blank. -/
theorem not_isBlank_of_printed {c : Char} (hlow : 33 ≤ c.toNat) (hhigh : c.toNat ≤ 126) :
    ¬isBlank c := by
  simp only [isBlank, blankRanges, List.any_cons, List.any_nil, Bool.or_false, Bool.or_eq_true,
    Bool.and_eq_true, decide_eq_true_iff]
  omega

namespace Kind

/-- A kind without a fixed spelling is that of the numerals or of the end of a text. -/
theorem mem_vocabulary {kind : Kind} (hnumber : kind ≠ .number) (hend : kind ≠ .endOfInput) :
    kind ∈ vocabulary := by
  cases kind with
  | number => exact absurd rfl hnumber
  | endOfInput => exact absurd rfl hend
  | operator o => cases o <;> decide
  | function f => cases f <;> decide
  | pi | leftParen | rightParen => decide

/-- The spellings are printed, and hold no digit, no decimal point and no letter in lower case. -/
theorem printed_of_mem_symbol {kind : Kind} (h : kind ∈ vocabulary) :
    ∀ c ∈ kind.symbol.toList, 33 ≤ c.toNat ∧ c.toNat ≤ 126 ∧ ¬c.isDigit ∧ c ≠ '.' := by
  -- as a computation on lists, lest all characters there are be tried
  have hall : vocabulary.all fun kind => kind.symbol.toList.all fun c =>
      33 ≤ c.toNat ∧ c.toNat ≤ 126 ∧ ¬c.isDigit ∧ c ≠ '.' := by decide +kernel
  intro c hc
  exact of_decide_eq_true (List.all_eq_true.1 (List.all_eq_true.1 hall kind h) c hc)

/-- No two kinds share a spelling. -/
theorem eq_of_symbol_eq {kind other : Kind} (h : kind ∈ vocabulary) (hother : other ∈ vocabulary)
    (hsymbol : kind.symbol.toList = other.symbol.toList) : kind = other := by
  have hall : ∀ kind ∈ vocabulary, ∀ other ∈ vocabulary,
      kind.symbol.toList = other.symbol.toList → kind = other := by decide +kernel
  exact hall kind h other hother hsymbol

end Kind

/-- Text in lower or upper case that is printed in upper case is printed as it is. -/
theorem printed_of_toUpper {c : Char} (hlow : 33 ≤ c.toUpper.toNat)
    (hhigh : c.toUpper.toNat ≤ 126) : 33 ≤ c.toNat ∧ c.toNat ≤ 126 := by
  rcases toUpper_cases c with h | ⟨hlower, hupper, -⟩
  · rw [h] at hlow hhigh
    exact ⟨hlow, hhigh⟩
  · omega

/-- Upper case changes no character into one that is no letter. -/
theorem eq_of_toUpper {c : Char} (h : c.toUpper.toNat < 65 ∨ 90 < c.toUpper.toNat) :
    c.toUpper = c := by
  rcases toUpper_cases c with heq | ⟨hlow, hhigh, hmoved⟩
  · exact heq
  · omega

/-- What is no letter in upper case was not changed by it. -/
theorem eq_of_map_toUpper {chars symbol : List Char} (h : chars.map Char.toUpper = symbol)
    (hsymbol : symbol.all fun c => c.toNat < 65 ∨ 90 < c.toNat) : chars = symbol := by
  subst h
  refine (List.map_id chars).symm.trans (List.map_congr_left fun c hc => ?_)
  have hc' := List.all_eq_true.1 hsymbol c.toUpper (List.mem_map_of_mem hc)
  exact (eq_of_toUpper (of_decide_eq_true hc')).symm

/-- A kind with a fixed spelling is written as this spelling, in any letter case. -/
theorem spells_iff_of_mem_vocabulary {kind : Kind} {chars : List Char}
    (h : kind ∈ Kind.vocabulary) :
    Spells kind chars ↔ chars.map Char.toUpper = kind.symbol.toList := by
  constructor
  · intro hspells
    cases hspells with
    | integer | decimal => exact absurd h (by decide)
    | pi hname | function hname => exact hname
    | operator o => cases o <;> decide
    | leftParen | rightParen => decide
  · intro hchars
    cases kind with
    | number | endOfInput => exact absurd h (by decide)
    | pi => exact .pi hchars
    | function f => exact .function hchars
    | operator o =>
      -- there is no letter in a symbol, so that upper case changes nothing
      have hsymbol : chars = o.symbol.toList :=
        eq_of_map_toUpper hchars (by cases o <;> decide)
      exact hsymbol ▸ .operator o
    | leftParen => exact eq_of_map_toUpper hchars (by decide) ▸ .leftParen
    | rightParen => exact eq_of_map_toUpper hchars (by decide) ▸ .rightParen

namespace Spells

variable {kind : Kind} {chars : List Char}

/-- No lexeme stands for the end of a text. -/
theorem ne_endOfInput (h : Spells kind chars) : kind ≠ .endOfInput := by
  rintro rfl
  cases h

/-- A lexeme is a numeral or a spelling of the vocabulary. -/
theorem number_or_mem_vocabulary (h : Spells kind chars) :
    kind = .number ∨ kind ∈ Kind.vocabulary := by
  by_cases hnumber : kind = .number
  · exact .inl hnumber
  · exact .inr (Kind.mem_vocabulary hnumber h.ne_endOfInput)

/-- Each character of a spelling is in upper case one of the symbol of its kind. -/
theorem toUpper_mem_symbol (h : Spells kind chars) (hkind : kind ∈ Kind.vocabulary) {c : Char}
    (hc : c ∈ chars) : c.toUpper ∈ kind.symbol.toList :=
  (spells_iff_of_mem_vocabulary hkind).1 h ▸ List.mem_map_of_mem hc

/-- A numeral is made of digits and decimal points. -/
theorem isDigit_or_eq_point (h : Spells .number chars) {c : Char} (hc : c ∈ chars) :
    c.isDigit ∨ c = '.' := by
  cases h with
  | integer hne hdigits => exact .inl (hdigits c hc)
  | decimal hne hwhole hfraction =>
    rcases List.mem_append.1 hc with hc | hc
    · exact .inl (hwhole c hc)
    · rcases List.mem_cons.1 hc with rfl | hc
      · exact .inr rfl
      · exact .inl (hfraction c hc)

/-- A numeral begins with a digit, and no other lexeme does so. -/
theorem isDigit_head_iff {c : Char} (h : Spells kind (c :: chars)) :
    c.isDigit ↔ kind = .number := by
  constructor
  · intro hc
    refine h.number_or_mem_vocabulary.resolve_right fun hkind => ?_
    -- a digit in upper case is still a digit, and no spelling holds one
    have hupper : c.toUpper = c := eq_of_toUpper (by
      rcases toUpper_cases c with heq | ⟨hlow, -⟩
      · exact .inl (by rw [heq]; have := ((isDigit_iff c).1 hc).2; omega)
      · have := ((isDigit_iff c).1 hc).2; omega)
    have hprinted := Kind.printed_of_mem_symbol hkind _ (h.toUpper_mem_symbol hkind (.head _))
    rw [hupper] at hprinted
    exact hprinted.2.2.1 hc
  · rintro rfl
    generalize hchars : c :: chars = lexeme at h
    cases h with
    | integer hne hdigits => exact hdigits c (hchars ▸ .head _)
    | @decimal whole fraction hne hwhole hfraction =>
      obtain ⟨d, whole, rfl⟩ := List.exists_cons_of_ne_nil hne
      exact (List.cons.inj hchars).1 ▸ hwhole d (.head _)

/-- A lexeme has at least one character. -/
theorem ne_nil (h : Spells kind chars) : chars ≠ [] := by
  rcases h.number_or_mem_vocabulary with rfl | hkind
  · cases h with
    | integer hne hdigits => exact hne
    | decimal hne hwhole hfraction => simp
  · rintro rfl
    have hpos := Lexeme.symbol_length_pos hkind
    rw [← String.length_toList, ← (spells_iff_of_mem_vocabulary hkind).1 h] at hpos
    exact absurd hpos (by decide)

/-- No lexeme begins with a decimal point. -/
theorem head_ne_point {c : Char} (h : Spells kind (c :: chars)) : c ≠ '.' := by
  rintro rfl
  rcases h.number_or_mem_vocabulary with hnumber | hkind
  · exact absurd (h.isDigit_head_iff.2 hnumber) (by decide)
  · exact (Kind.printed_of_mem_symbol hkind _ (h.toUpper_mem_symbol hkind (.head _))).2.2.2 rfl

/-- No blank stands in a lexeme. -/
theorem not_isBlank_of_mem (h : Spells kind chars) {c : Char} (hc : c ∈ chars) : ¬isBlank c := by
  rcases h.number_or_mem_vocabulary with rfl | hkind
  · rcases h.isDigit_or_eq_point hc with hdigit | rfl
    · obtain ⟨hlow, hhigh⟩ := (isDigit_iff c).1 hdigit
      exact not_isBlank_of_printed (by omega) (by omega)
    · decide
  · have hprinted := Kind.printed_of_mem_symbol hkind _ (h.toUpper_mem_symbol hkind hc)
    obtain ⟨hlow, hhigh⟩ := printed_of_toUpper hprinted.1 hprinted.2.1
    exact not_isBlank_of_printed hlow hhigh

/-- A lexeme is one of a single kind. -/
theorem unique {other : Kind} (h : Spells kind chars) (hother : Spells other chars) :
    kind = other := by
  obtain ⟨c, chars, rfl⟩ := List.exists_cons_of_ne_nil h.ne_nil
  -- the first character tells numerals from the rest, and the whole spelling tells the rest apart
  rcases h.number_or_mem_vocabulary with hnumber | hkind
  · rw [hnumber, hother.isDigit_head_iff.1 (h.isDigit_head_iff.2 hnumber)]
  rcases hother.number_or_mem_vocabulary with hnumber | hkind'
  · rw [hnumber, h.isDigit_head_iff.1 (hother.isDigit_head_iff.2 hnumber)]
  · refine Kind.eq_of_symbol_eq hkind hkind' ?_
    rw [← (spells_iff_of_mem_vocabulary hkind).1 h,
      ← (spells_iff_of_mem_vocabulary hkind').1 hother]

end Spells

end Reckoner
