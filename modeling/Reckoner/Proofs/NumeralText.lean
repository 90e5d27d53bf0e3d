import Reckoner.Proofs.LongestLexeme

/-!
# What is written as a number can be read as one

Every text that a `Layout` writes is a numeral, whatever float it is written for, and so is every
lexeme of a numeral. Hence no literal is without a value: neither one of the text, nor one that the
scanner has written anew.

## Main definitions

* `MagnitudeText chars`: digits, with a decimal point and an exponent of ten if there are any.

## Main results

* `Numeral.magnitude?_point` and `Numeral.magnitude?_whole`: the decimal that such a text is read
  as;
* `MagnitudeText.ofChars?_eq`: no such text is a special word;
* `Layout.isSome_read?_write`: what a layout writes can be read;
* `Spells.exists_canonicalText`: a lexeme of any kind has a text.
-/

namespace Reckoner

/-- Nothing, or an exponent of ten as it is written. -/
def ExponentText (chars : List Char) : Prop :=
  chars = [] ∨ ∃ exponent : Int, chars = 'e' :: (toString exponent).toList

/-- Digits, with a decimal point and an exponent of ten if there are any. A digit stands in front of
the point. -/
inductive MagnitudeText : List Char → Prop
  /-- There is no decimal point. -/
  | whole {whole tail : List Char} (hne : whole ≠ []) (hwhole : ∀ c ∈ whole, c.isDigit)
      (htail : ExponentText tail) : MagnitudeText (whole ++ tail)
  /-- There is a decimal point. -/
  | point {whole fraction tail : List Char} (hne : whole ≠ []) (hwhole : ∀ c ∈ whole, c.isDigit)
      (hfraction : ∀ c ∈ fraction, c.isDigit) (htail : ExponentText tail) :
      MagnitudeText (whole ++ '.' :: (fraction ++ tail))

/-- The digits of a natural number are digits. -/
theorem isDigit_of_mem_decimalDigits {n : Nat} {c : Char} (h : c ∈ decimalDigits n) : c.isDigit :=
  Nat.isDigit_of_mem_toDigits (by decide) (by decide) h

theorem decimalDigits_ne_nil (n : Nat) : decimalDigits n ≠ [] := by
  rw [decimalDigits, Nat.toDigits_eq_if (by decide)]
  split <;> simp

theorem isDigit_of_mem_replicate_zero {count : Nat} {c : Char}
    (h : c ∈ List.replicate count '0') : c.isDigit := by
  obtain rfl := (List.mem_replicate.1 h).2
  decide

/-- The digits of a natural number spell it. -/
theorem natOfDigits_decimalDigits (n : Nat) : natOfDigits (decimalDigits n) = n :=
  Nat.ofDigitChars_ten_toDigits

namespace Numeral

/-- Digits have no sign in front of them. -/
theorem splitSign_of_isDigit {chars : List Char} {c : Char} (hc : c.isDigit) :
    splitSign (c :: chars) = (false, c :: chars) := by
  unfold splitSign
  split
  next heq =>
    obtain ⟨rfl, -⟩ := List.cons.inj heq
    exact absurd hc (by decide)
  next heq =>
    obtain ⟨rfl, -⟩ := List.cons.inj heq
    exact absurd hc (by decide)
  next => rfl

/-- An exponent that is written is read. -/
theorem exponent?_toString (exponent : Int) :
    exponent? ('e' :: (toString exponent).toList) = some exponent := by
  have hread : ∀ (chars : List Char) (negative : Bool) (n : Nat),
      splitSign chars = (negative, decimalDigits n) →
        exponent? ('e' :: chars) = some (if negative then -(n : Int) else n) := by
    intro chars negative n hsplit
    have hdigits : decimalDigits n ≠ [] ∧ (decimalDigits n).all Char.isDigit := by
      rw [List.all_eq_true]
      exact ⟨decimalDigits_ne_nil n, fun _ => isDigit_of_mem_decimalDigits⟩
    simp only [exponent?, hsplit]
    rw [if_pos ⟨by decide, hdigits⟩, natOfDigits_decimalDigits]
  cases exponent with
  | ofNat n =>
    -- the first character is a digit and no sign
    have hchars : (toString (Int.ofNat n)).toList = decimalDigits n := String.toList_ofList
    have hall : ∀ c ∈ decimalDigits n, c.isDigit := fun _ => isDigit_of_mem_decimalDigits
    refine hread _ false n ?_
    obtain ⟨c, digits, hdigits⟩ := List.exists_cons_of_ne_nil (decimalDigits_ne_nil n)
    rw [hdigits] at hall
    rw [hchars, hdigits, splitSign_of_isDigit (hall c (.head _))]
  | negSucc n =>
    have hchars : (toString (Int.negSucc n)).toList = '-' :: decimalDigits (n + 1) := by
      have hstring : toString (Int.negSucc n) = "-" ++ String.ofList (decimalDigits (n + 1)) := rfl
      rw [hstring, String.toList_append, String.toList_ofList (l := decimalDigits (n + 1))]
      rfl
    exact hread _ true (n + 1) (by rw [hchars]; rfl)

/-- Whatever is written for an exponent, one is read. -/
theorem isSome_exponent? {chars : List Char} (h : ExponentText chars) :
    (exponent? chars).isSome := by
  rcases h with rfl | ⟨exponent, rfl⟩
  · rfl
  · rw [exponent?_toString]
    rfl

end Numeral

/-- No digit begins an exponent. -/
theorem ExponentText.not_isDigit_head {chars : List Char} (h : ExponentText chars) :
    ∀ c rest, chars = c :: rest → ¬c.isDigit := by
  rintro c rest rfl
  rcases h with h | ⟨exponent, h⟩
  · cases h
  · obtain ⟨rfl, -⟩ := List.cons.inj h
    decide

namespace Numeral

variable {whole fraction tail : List Char}

/-- Digits around a point are read as one number. -/
theorem magnitude?_point (hne : whole ≠ []) (hwhole : ∀ c ∈ whole, c.isDigit)
    (hfraction : ∀ c ∈ fraction, c.isDigit) (htail : ExponentText tail) :
    magnitude? (whole ++ '.' :: (fraction ++ tail)) = (exponent? tail).map fun exponent =>
      ⟨natOfDigits (whole ++ fraction),
        clampExponent (whole ++ fraction).length exponent - fraction.length⟩ := by
  have hpoint : ∀ c rest, '.' :: (fraction ++ tail) = c :: rest → ¬c.isDigit := by
    intro c rest h
    obtain ⟨rfl, -⟩ := List.cons.inj h
    decide
  have htake := takeWhile_append_of_head hwhole hpoint
  have hdrop := dropWhile_append_of_head hwhole hpoint
  have htake' := takeWhile_append_of_head hfraction htail.not_isDigit_head
  have hdrop' := dropWhile_append_of_head hfraction htail.not_isDigit_head
  have hempty : (whole ++ fraction).isEmpty = false := by simp [hne]
  simp only [magnitude?, htake, hdrop, htake', hdrop', hempty, Bool.false_eq_true, if_false]

/-- Digits without a point are read as a number. -/
theorem magnitude?_whole (hne : whole ≠ []) (hwhole : ∀ c ∈ whole, c.isDigit)
    (htail : ExponentText tail) :
    magnitude? (whole ++ tail) = (exponent? tail).map fun exponent =>
      ⟨natOfDigits whole, clampExponent whole.length exponent⟩ := by
  have htake := takeWhile_append_of_head hwhole htail.not_isDigit_head
  have hdrop := dropWhile_append_of_head hwhole htail.not_isDigit_head
  have hempty : whole.isEmpty = false := by simp [hne]
  simp only [magnitude?, htake, hdrop]
  -- the reader looks for a decimal point where the exponent may begin
  calc
    _ = if (whole ++ []).isEmpty then none else (exponent? tail).map fun exponent =>
          ⟨natOfDigits (whole ++ []), clampExponent (whole ++ []).length exponent - (0 : Nat)⟩ := by
      rcases htail with rfl | ⟨exponent, rfl⟩ <;> rfl
    _ = _ := by
      simp only [List.append_nil, hempty, Bool.false_eq_true, if_false, Int.natCast_zero,
        Int.sub_zero]

end Numeral

namespace MagnitudeText

variable {chars : List Char}

/-- A digit stands at the beginning. -/
theorem exists_cons (h : MagnitudeText chars) : ∃ c rest, chars = c :: rest ∧ c.isDigit := by
  cases h with
  | whole hne hwhole htail | point hne hwhole hfraction htail =>
    obtain ⟨c, whole, rfl⟩ := List.exists_cons_of_ne_nil hne
    exact ⟨c, _, rfl, hwhole c (.head _)⟩

/-- The text of a magnitude is read as a decimal. -/
theorem isSome_magnitude? (h : MagnitudeText chars) : (Numeral.magnitude? chars).isSome := by
  cases h with
  | whole hne hwhole htail =>
    rw [Numeral.magnitude?_whole hne hwhole htail, Option.isSome_map,
      Numeral.isSome_exponent? htail]
  | point hne hwhole hfraction htail =>
    rw [Numeral.magnitude?_point hne hwhole hfraction htail, Option.isSome_map,
      Numeral.isSome_exponent? htail]

/-- The text of a magnitude is no special word, also with a minus sign in front of it. -/
theorem ofChars?_eq (h : MagnitudeText chars) (negative : Bool) :
    Numeral.ofChars? (Layout.sign negative ++ chars) =
      (Numeral.magnitude? chars).map (.decimal negative) := by
  obtain ⟨c, rest, rfl, hc⟩ := h.exists_cons
  have hsign : Numeral.splitSign (Layout.sign negative ++ c :: rest) = (negative, c :: rest) := by
    cases negative with
    | true => rfl
    | false => exact Numeral.splitSign_of_isDigit hc
  -- a digit is the same in lower case, and no word begins with one
  have hlower : c.toLower = c := by
    have hhigh := ((isDigit_iff c).1 hc).2
    unfold Char.toLower
    refine dif_neg fun hupper => ?_
    have hlow : 65 ≤ c.toNat := hupper.1
    omega
  have hword : ∀ word : String, (word.toList.head?.all fun d => !d.isDigit) →
      String.ofList ((c :: rest).map Char.toLower) ≠ word := by
    rintro word hword rfl
    rw [String.toList_ofList, List.map_cons, List.head?_cons, hlower, Option.all_some, hc] at hword
    cases hword
  simp only [Numeral.ofChars?, hsign]
  rw [if_neg (hword "nan" (by decide)),
    if_neg (not_or.2 ⟨hword "inf" (by decide), hword "infinity" (by decide)⟩)]

/-- The text of a magnitude is read as a numeral, also with a minus sign in front of it. -/
theorem isSome_ofChars? (h : MagnitudeText chars) (negative : Bool) :
    (Numeral.ofChars? (Layout.sign negative ++ chars)).isSome := by
  rw [h.ofChars?_eq, Option.isSome_map, h.isSome_magnitude?]

end MagnitudeText

/-- Digits stay digits without the zeros at their end. -/
theorem dropTrailingZeros_spec {digits : List Char} (h : ∀ c ∈ digits, c.isDigit) :
    dropTrailingZeros digits ≠ [] ∧ ∀ c ∈ dropTrailingZeros digits, c.isDigit := by
  rw [dropTrailingZeros]
  split
  next => exact ⟨by simp, List.forall_mem_singleton.2 rfl⟩
  next hne =>
    refine ⟨fun hnil => hne hnil, fun c hc => h c ?_⟩
    have hmem := (List.dropWhile_suffix (· == '0')).mem (List.mem_reverse.1 hc)
    exact List.mem_reverse.1 hmem

namespace Layout

/-- What is written for a decimal is at least one digit, if any are wanted, and nothing else. -/
theorem written_spec {layout : Layout} (h : layout.digits ≠ some 0) (d : Decimal) :
    layout.written d ≠ [] ∧ ∀ c ∈ layout.written d, c.isDigit := by
  have hdigits : ∀ c ∈ decimalDigits d.coefficient, c.isDigit :=
    fun _ => isDigit_of_mem_decimalDigits
  rw [written]
  cases hcount : layout.digits with
  | none => exact dropTrailingZeros_spec hdigits
  | some count =>
    have hne := decimalDigits_ne_nil d.coefficient
    have hpos : count ≠ 0 := fun hzero => h (hzero ▸ hcount)
    refine ⟨by simp [hne, hpos], fun c hc => ?_⟩
    rcases List.mem_append.1 hc with hc | hc
    · exact hdigits c (List.mem_of_mem_take hc)
    · exact isDigit_of_mem_replicate_zero hc

end Layout

/-- The characters of a numeral are the text of a magnitude. -/
theorem Spells.magnitudeText {chars : List Char} (h : Spells .number chars) :
    MagnitudeText chars := by
  cases h with
  | integer hne hdigits =>
    have htext := MagnitudeText.whole hne hdigits (.inl rfl)
    rwa [List.append_nil] at htext
  | decimal hne hwhole hfraction =>
    have htext := MagnitudeText.point hne hwhole hfraction (.inl rfl)
    rwa [List.append_nil] at htext

/-- Digits with the decimal point at its place are a numeral. -/
theorem spells_positional {digits : List Char} (hne : digits ≠ [])
    (h : ∀ c ∈ digits, c.isDigit) (point : Int) : Spells .number (positional digits point) := by
  rw [positional]
  split
  next =>
    -- the number is less than one: a zero stands in front of the point
    refine @Spells.decimal ['0'] _ (by simp) (List.forall_mem_singleton.2 rfl) fun c hc => ?_
    exact (List.mem_append.1 hc).elim isDigit_of_mem_replicate_zero (h c)
  next hpoint =>
    -- the digits are cut at the point, or filled up to it with zeros
    have hwhole : point.toNat ≠ 0 := by omega
    refine .decimal (by simp [hne, hwhole]) (fun c hc => ?_) ?_
    · exact (List.mem_append.1 hc).elim (fun hc => h c (List.mem_of_mem_take hc))
        isDigit_of_mem_replicate_zero
    · split
      next => exact List.forall_mem_singleton.2 rfl
      next => exact fun c hc => h c (List.mem_of_mem_drop hc)

/-- Digits with an exponent of ten are the text of a magnitude. -/
theorem magnitudeText_scientific {digits : List Char} (hne : digits ≠ [])
    (h : ∀ c ∈ digits, c.isDigit) (exponent : Int) :
    MagnitudeText (scientific digits exponent) := by
  have hexponent : ExponentText ('e' :: (toString exponent).toList) := .inr ⟨exponent, rfl⟩
  rw [scientific.eq_def]
  split
  next => exact absurd rfl hne
  next digit =>
    have htext : MagnitudeText ([digit] ++ 'e' :: (toString exponent).toList) :=
      .whole (by simp) h hexponent
    exact htext
  next digit fraction _ =>
    have htext : MagnitudeText
        ([digit] ++ '.' :: (fraction ++ 'e' :: (toString exponent).toList)) :=
      .point (by simp) (fun c hc => h c (List.mem_singleton.1 hc ▸ .head _))
        (fun c hc => h c (.tail _ hc)) hexponent
    exact htext

namespace Layout

variable {layout : Layout}

/-- What is written for a magnitude is the text of one. -/
theorem magnitudeText_magnitude (h : layout.digits ≠ some 0) (units : Nat) :
    MagnitudeText (layout.magnitude units) := by
  obtain ⟨hne, hdigits⟩ := written_spec h (layout.decimal units)
  rw [magnitude]
  split
  · exact (spells_positional hne hdigits _).magnitudeText
  · exact magnitudeText_scientific hne hdigits _

/-- Whatever float a layout writes, its text is a numeral. -/
theorem isSome_read?_write (h : layout.digits ≠ some 0) (x : Float) :
    (Number.read? (layout.write x)).isSome := by
  rw [Number.read?, write, String.toList_ofList, Option.isSome_map, chars]
  split
  next => decide
  next negative _ => cases negative <;> decide
  next negative units _ => exact (magnitudeText_magnitude h units).isSome_ofChars? negative

end Layout

/-- The text of a finite number is a sign, if there is one, and a magnitude. -/
theorem Number.toList_text {x : Float} {negative : Bool} {units : Nat}
    (h : Binary64.parts x = .finite negative units) :
    (Number.text x).toList = Layout.sign negative ++ Number.layout.magnitude units := by
  rw [Number.text, Layout.write, String.toList_ofList, Layout.chars, h]

/-- The text of a value is read as one. -/
theorem Number.isSome_read?_text (x : Float) : (Number.read? (Number.text x)).isSome :=
  Layout.isSome_read?_write (by decide) x

/-- A lexeme of any kind has a text. -/
theorem Spells.exists_canonicalText {kind : Kind} {lexeme : List Char} (h : Spells kind lexeme) :
    ∃ text, CanonicalText kind lexeme text := by
  rcases h.number_or_mem_vocabulary with rfl | hkind
  · have hread : (Number.read? (String.ofList lexeme)).isSome := by
      rw [Number.read?, String.toList_ofList, Option.isSome_map]
      exact h.magnitudeText.isSome_ofChars? false
    obtain ⟨x, hx⟩ := Option.isSome_iff_exists.1 hread
    exact ⟨Number.text x, x, hx, rfl⟩
  · exact ⟨_, (Lexeme.canonicalText_iff hkind lexeme _).2 rfl⟩

end Reckoner
