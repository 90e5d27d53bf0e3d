import Reckoner.Proofs.Diagnostics
import Reckoner.Proofs.Nearest
import Reckoner.Proofs.RoundTrip

/-!
# The values of literals

The value of a literal is the float nearest to the number that its digits spell. It goes from the
scanner to the evaluator as a text that is written for the float, with an exponent of ten or as the
word for infinity if need be, and no literal of the text may look like this. Nothing is lost on the
way: wherever a literal stands, its node in the tree has this value.

## Main definitions

* `decimalValue chars`: the number that digits with a decimal point among them spell.

## Main results

* `Spells.exists_decimal`: a literal is read as a decimal that is the number its digits spell;
* `Stream.canonicalText_of_slice?`: the token at the place of a lexeme is the one that the lexeme
  spells;
* `literal_mem_nodes`: a literal of a text is a node of its tree;
* `exists_value_of_literal`: the value of a literal, by itself and anywhere in a text.
-/

namespace Reckoner

/-- The number that digits with at most one decimal point among them spell. The number of digits
behind the point says by which power of ten they are divided. -/
def decimalValue (chars : List Char) : ℚ :=
  let whole := chars.takeWhile Char.isDigit
  let fraction := (chars.dropWhile Char.isDigit).drop 1
  Nat.ofDigitChars 10 whole 0 + Nat.ofDigitChars 10 fraction 0 / 10 ^ fraction.length

theorem decimalValue_whole {whole : List Char} (hwhole : ∀ c ∈ whole, c.isDigit) :
    decimalValue whole = natOfDigits whole := by
  rw [decimalValue, List.takeWhile_eq_self_iff.2 hwhole, List.dropWhile_eq_nil_iff.2 hwhole]
  exact add_eq_left.2 (zero_div _)

theorem decimalValue_point {whole fraction : List Char} (hwhole : ∀ c ∈ whole, c.isDigit) :
    decimalValue (whole ++ '.' :: fraction) =
      natOfDigits (whole ++ fraction) / 10 ^ fraction.length := by
  have hpoint : ∀ c rest, '.' :: fraction = c :: rest → ¬c.isDigit := by
    intro c rest h
    obtain ⟨rfl, -⟩ := List.cons.inj h
    decide
  have hpower : (10 : ℚ) ^ fraction.length ≠ 0 := by positivity
  rw [decimalValue, takeWhile_append_of_head hwhole hpoint, dropWhile_append_of_head hwhole hpoint,
    natOfDigits_append, Nat.cast_add, Nat.cast_mul, Nat.cast_pow, add_div,
    Nat.cast_ofNat, mul_div_cancel_right₀ _ hpower]
  rfl

/-- A literal is read as a decimal that is the number its digits spell. -/
theorem Spells.exists_decimal {chars : List Char} (h : Spells .number chars) :
    ∃ d : Decimal, Number.read? (String.ofList chars) = some (d.toFloat false) ∧
      decimalValue chars = d.numerator / d.denominator := by
  have hread : ∀ d, Numeral.magnitude? chars = some d →
      Number.read? (String.ofList chars) = some (d.toFloat false) := by
    intro d hd
    have hnumeral := h.magnitudeText.ofChars?_eq false
    rw [hd] at hnumeral
    rw [Number.read?, String.toList_ofList]
    exact congrArg (Option.map Numeral.toFloat) hnumeral
  cases h with
  | integer hne hdigits =>
    have hmagnitude := Numeral.magnitude?_whole hne hdigits (.inl rfl)
    rw [List.append_nil, Numeral.exponent?, Option.map_some,
      Numeral.clampExponent_eq_self (by omega) (by omega)] at hmagnitude
    refine ⟨_, hread _ hmagnitude, ?_⟩
    rw [decimalValue_whole hdigits]
    simp [Decimal.numerator, Decimal.denominator]
  | @decimal whole fraction hne hwhole hfraction =>
    have hmagnitude := @Numeral.magnitude?_padded (whole ++ fraction) whole fraction whole.length 0
      hne hwhole hfraction (by simp) (by simp)
    refine ⟨_, hread _ hmagnitude, ?_⟩
    rw [decimalValue_point hwhole]
    simp [Decimal.numerator, Decimal.denominator]

/-- A literal is read as the float nearest to the number that its digits spell. -/
theorem Spells.exists_nearest {chars : List Char} (h : Spells .number chars) :
    ∃ x, Number.read? (String.ofList chars) = some x ∧
      ∀ y, Binary64.IsNearest (decimalValue chars) y ↔ y = x := by
  obtain ⟨d, hread, hvalue⟩ := h.exists_decimal
  refine ⟨d.toFloat false, hread, fun y => ?_⟩
  rw [hvalue]
  exact Binary64.isNearest_iff _ (Nat.pow_pos (by decide))

/-! ### Literals in a text -/

/-- The token at the place of a lexeme is the one that the lexeme spells. -/
theorem Stream.canonicalText_of_slice? {text : String} {t : Token} {kind : Kind}
    {lexeme : List Char} (hmem : t ∈ (ofText text).tokens)
    (hslice : slice? t.span text.toList = some lexeme) (hspells : Spells kind lexeme) :
    t.kind = kind ∧ CanonicalText kind lexeme t.text := by
  obtain ⟨before, blanks, lexeme', after, htext, hleads⟩ := exists_leads hmem
  have hstands : slice? t.span text.toList = some lexeme' := by
    refine slice?_eq_some_iff.2 ⟨before ++ blanks, after, by simp [htext], ?_⟩
    rw [hleads.span_eq, utf8Length_append, Nat.zero_add]
  obtain rfl : lexeme' = lexeme := Option.some.inj (hstands.symm.trans hslice)
  obtain rfl := hleads.longest.spells.unique hspells
  exact ⟨rfl, hleads.canonical⟩

/-- A literal of a text is a node of its tree. -/
theorem literal_mem_nodes {text : String} {e : Expr} {t : Token}
    (h : (parse text).result = .ok e) (hmem : t ∈ (Stream.ofText text).tokens)
    (hkind : t.kind = .number) : (.literal, t) ∈ e.nodes := by
  obtain ⟨ts, length, n, hs, hderives, -⟩ := exists_derives_of_parse_eq_ok h
  have hinorder : t ∈ e.inorder := by
    rw [hs] at hmem
    rw [hderives.inorder_eq]
    exact List.mem_filter.2 ⟨hmem, by rw [hkind]; rfl⟩
  obtain ⟨shape, hnode⟩ := Expr.exists_mem_nodes_of_mem_inorder hinorder
  -- a number has no meaning in a node of another form
  cases evaluable_of_parse_eq_ok h _ hnode with
  | literal => exact hnode
  | unary hother | binary hother | application hother => cases hkind.symm.trans hother

/-- The text of a number has this number for its value, as a literal. -/
theorem Token.value_literal {t : Token} {x : Float} (h : t.text = Number.text x) :
    (Expr.literal t).value = .ok x := by
  show t.literalValue = _
  unfold literalValue
  rw [h, Number.read?_text]

/-- A text whose tokens are a factor has the value of the factor, if the factor is within the
limits. -/
theorem valueOf_of_factor {text : String} {ts : List Token} {length n : Nat} {e : Expr} {x : Float}
    (hs : Stream.ofText text = ⟨ts, .endOfInput length⟩) (h : Derives .factor ts e n)
    (hn : n ≤ depthLimit) (hheight : e.height ≤ depthLimit) (hvalue : e.value = .ok x) :
    valueOf text = .ok x := by
  rcases parse_of_derives hs (h.toComplexExpr (by decide) (by decide)) with
    ⟨-, -, hparse⟩ | ⟨hbeyond, -⟩
  · rw [valueOf_of_parse_eq_ok hparse, hvalue]
    rfl
  · omega

/-- A text that is a token of a number, and nothing else, has the value of this token. -/
theorem valueOf_of_number {text : String} {t : Token} {length : Nat} {x : Float}
    (hs : Stream.ofText text = ⟨[t], .endOfInput length⟩) (hkind : t.kind = .number)
    (hvalue : (Expr.literal t).value = .ok x) : valueOf text = .ok x := by
  have hatom : Derives .atom [t] (.literal t) 0 := .literal (.inl hkind)
  exact valueOf_of_factor hs (.unsigned (.base hatom)) (by decide) (Nat.zero_le _) hvalue

/-- A literal means its own digits. There is one float that is nearest to the number that the digits
spell, and with whatever digits this number is spelled, it is written and read as this float: as a
text by itself, as the only token there, and as a token and a node of the tree anywhere in a
text. -/
theorem exists_value_of_literal {chars : List Char} (h : Spells .number chars) :
    ∃ x, (∀ y, Binary64.IsNearest (decimalValue chars) y ↔ y = x) ∧
      ∀ chars', Spells .number chars' → decimalValue chars' = decimalValue chars →
        valueOf (String.ofList chars') = .ok x ∧
        (Stream.ofText (String.ofList chars')).tokens =
          [⟨.number, Number.text x, ⟨0, utf8Length chars'⟩⟩] ∧
        ∀ text, ∀ t ∈ (Stream.ofText text).tokens, slice? t.span text.toList = some chars' →
          t.kind = .number ∧ t.text = Number.text x ∧ (Expr.literal t).value = .ok x ∧
            ∀ e, (parse text).result = .ok e → (.literal, t) ∈ e.nodes := by
  obtain ⟨x, -, hnearest⟩ := h.exists_nearest
  refine ⟨x, hnearest, fun chars' hspells hequal => ?_⟩
  have hread : Number.read? (String.ofList chars') = some x := by
    obtain ⟨x', hread, hnearest'⟩ := hspells.exists_nearest
    rw [hequal] at hnearest'
    rw [hread, (hnearest x').1 ((hnearest' x').2 rfl)]
  have hvalue : ∀ t : Token, t.text = Number.text x → (Expr.literal t).value = .ok x := by
    intro t ht
    rw [Expr.value, Token.literalValue, ht, Number.read?_text]
  have hs := Stream.scanFrom_lexeme hspells ⟨x, hread, rfl⟩ 0
  rw [← Stream.ofText_ofList] at hs
  refine ⟨valueOf_of_number hs rfl (hvalue _ rfl), by rw [hs], fun text t hmem hslice => ?_⟩
  obtain ⟨hkind, y, hy, htext⟩ := Stream.canonicalText_of_slice? hmem hslice hspells
  obtain rfl : y = x := Option.some.inj (hy.symm.trans hread)
  exact ⟨hkind, htext, hvalue t htext, fun e he => literal_mem_nodes he hmem hkind⟩

/-- Zeros at both ends change nothing: seven and a half is read from more digits than it needs, and
from fewer. -/
theorem exists_value_of_seven_and_a_half :
    Spells .number "007.50".toList ∧ decimalValue "007.50".toList = 15 / 2 ∧
      ∃ x, Binary64.IsNearest (15 / 2) x ∧ valueOf "007.50" = .ok x ∧ valueOf "7.5" = .ok x := by
  have hwhole : ∀ c ∈ ['0', '0', '7'], c.isDigit := List.all_eq_true.1 rfl
  have hwhole' : ∀ c ∈ ['7'], c.isDigit := List.all_eq_true.1 rfl
  have hlong : Spells .number (['0', '0', '7'] ++ '.' :: ['5', '0']) :=
    .decimal (by decide) hwhole (List.all_eq_true.1 rfl)
  have hshort : Spells .number (['7'] ++ '.' :: ['5']) :=
    .decimal (by decide) hwhole' (List.all_eq_true.1 rfl)
  have hvalue : decimalValue (['0', '0', '7'] ++ '.' :: ['5', '0']) = 15 / 2 := by
    have hdigits : natOfDigits (['0', '0', '7'] ++ ['5', '0']) = 750 := rfl
    rw [decimalValue_point hwhole, hdigits]
    norm_num
  have hvalue' : decimalValue (['7'] ++ '.' :: ['5']) = 15 / 2 := by
    have hdigits : natOfDigits (['7'] ++ ['5']) = 75 := rfl
    rw [decimalValue_point hwhole', hdigits]
    norm_num
  obtain ⟨x, hnearest, hread⟩ := exists_value_of_literal hlong
  rw [hvalue] at hnearest hread
  exact ⟨hlong, hvalue, x, (hnearest x).2 rfl, (hread _ hlong hvalue).1, (hread _ hshort hvalue').1⟩

end Reckoner
