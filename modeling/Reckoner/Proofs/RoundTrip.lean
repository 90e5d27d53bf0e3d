import Reckoner.Proofs.NumeralText
import Reckoner.Proofs.Units

/-!
# What is written as a number is read as the same number

The digits that are written for a float have the value that reads back as this float, and they are
read with this value wherever the decimal point stands and whether there is an exponent or not.

## Main results

* `Decimal.nearestUnits_shortest`: the fewest digits that are looked for do read back;
* `Decimal.le_point` and `Decimal.point_le`: how far from its digits a decimal has its point;
* `Numeral.magnitude?_positional` and `Numeral.magnitude?_scientific`: how digits are read;
* `Number.read?_text`: reading back what was written.
-/

namespace Reckoner

/-! ### Digits -/

theorem natOfDigits_append (xs ys : List Char) :
    natOfDigits (xs ++ ys) = natOfDigits xs * 10 ^ ys.length + natOfDigits ys := by
  have happend : natOfDigits (xs ++ ys) = Nat.ofDigitChars 10 ys (natOfDigits xs) :=
    Nat.ofDigitChars_append 0
  rw [happend, Nat.ofDigitChars_eq_ofDigitChars_zero, Nat.mul_comm]
  rfl

theorem natOfDigits_replicate_zero (count : Nat) :
    natOfDigits (List.replicate count '0') = 0 := by
  have hzero : natOfDigits (List.replicate count '0') = 10 ^ count * 0 :=
    Nat.ofDigitChars_replicate_zero
  rw [hzero, Nat.mul_zero]

/-- Only zeros are dropped. -/
theorem exists_eq_dropTrailingZeros_append {digits : List Char} (hne : digits ≠ []) :
    ∃ count, digits = dropTrailingZeros digits ++ List.replicate count '0' := by
  have hzeros : digits.reverse.takeWhile (· == '0') =
      List.replicate (digits.reverse.takeWhile (· == '0')).length '0' :=
    List.eq_replicate_iff.2 ⟨rfl, fun c hc => by simpa using List.mem_takeWhile_imp hc⟩
  have hsplit : digits = (digits.reverse.dropWhile (· == '0')).reverse ++
      List.replicate (digits.reverse.takeWhile (· == '0')).length '0' := by
    rw [← List.reverse_replicate, ← hzeros, ← List.reverse_append,
      List.takeWhile_append_dropWhile, List.reverse_reverse]
  rw [dropTrailingZeros]
  split
  next hnil =>
    -- there are only zeros, and one of them is kept
    rw [hnil, List.nil_append] at hsplit
    obtain ⟨count, hcount⟩ : ∃ count, (digits.reverse.takeWhile (· == '0')).length = count + 1 := by
      refine Nat.exists_eq_succ_of_ne_zero fun hzero => hne ?_
      rw [hsplit, hzero, List.replicate_zero]
    exact ⟨count, hsplit.trans (by rw [hcount, List.replicate_succ]; rfl)⟩
  next => exact ⟨_, hsplit⟩

/-! ### Decimals -/

namespace Decimal

open Binary64

/-- Zeros at the end of a coefficient may be counted by the exponent. -/
theorem nearestUnits_mul_pow (coefficient : Nat) (exponent : Int) (count : Nat) :
    nearestUnits ⟨coefficient * 10 ^ count, exponent⟩ =
      nearestUnits ⟨coefficient, exponent + count⟩ := by
  refine nearestUnits_congr (Nat.pow_pos (by decide)) (Nat.pow_pos (by decide)) ?_
  have hexponents : count + exponent.toNat + (-(exponent + count)).toNat =
      (exponent + count).toNat + (-exponent).toNat := by omega
  have hpowers := congrArg (10 ^ ·) hexponents
  simp only [Nat.pow_add] at hpowers
  simp only [numerator, denominator]
  calc coefficient * 10 ^ count * 10 ^ exponent.toNat * unitsInOne *
          10 ^ (-(exponent + count)).toNat
      = coefficient * unitsInOne *
          (10 ^ count * 10 ^ exponent.toNat * 10 ^ (-(exponent + count)).toNat) := by ring
    _ = coefficient * unitsInOne * (10 ^ (exponent + count).toNat * 10 ^ (-exponent).toNat) := by
        rw [hpowers]
    _ = coefficient * 10 ^ (exponent + count).toNat * unitsInOne * 10 ^ (-exponent).toNat := by ring

/-- The digits that are written for a decimal, with the point where it belongs, have its value. -/
theorem nearestUnits_dropTrailingZeros (d : Decimal) :
    nearestUnits ⟨natOfDigits (dropTrailingZeros (decimalDigits d.coefficient)),
      d.point - (dropTrailingZeros (decimalDigits d.coefficient)).length⟩ = d.nearestUnits := by
  obtain ⟨count, hdigits⟩ := exists_eq_dropTrailingZeros_append (decimalDigits_ne_nil d.coefficient)
  rw [point]
  generalize dropTrailingZeros (decimalDigits d.coefficient) = digits at hdigits ⊢
  have hcoefficient : d.coefficient = natOfDigits digits * 10 ^ count := by
    rw [← natOfDigits_decimalDigits d.coefficient, hdigits, natOfDigits_append,
      natOfDigits_replicate_zero, List.length_replicate, Nat.add_zero]
  have hexponent : ((decimalDigits d.coefficient).length : Int) + d.exponent - digits.length =
      d.exponent + count := by
    rw [hdigits, List.length_append, List.length_replicate]
    omega
  rw [hexponent, ← nearestUnits_mul_pow, ← hcoefficient]

/-- All digits of a magnitude read back. -/
theorem nearestUnits_exact {s k : Nat} (h : Significand s k) :
    (exact (s * 2 ^ k)).nearestUnits = s * 2 ^ k := by
  -- a unit is `2 ^ (-1074)`, which is `5 ^ 1074` times `10 ^ (-1074)`
  have hten : ∀ m units : Nat, units * 5 ^ m * 10 ^ 0 * 2 ^ m = units * 10 ^ m := by
    intro m units
    rw [show (10 : Nat) ^ m = (5 * 2) ^ m from rfl, Nat.mul_pow, Nat.pow_zero, Nat.mul_one,
      Nat.mul_assoc]
  have hnone : (-1074 : Int).toNat = 0 := rfl
  have hall : (-(-1074) : Int).toNat = 1074 := rfl
  have hrounds := fun m => nearestUnits_of_significand h (d := 10 ^ m) (Nat.pow_pos (by decide))
  rw [nearestUnits, exact, numerator, denominator, unitsInOne, hnone, hall, hten, hrounds]

/-- The fewest digits that are found read back. -/
theorem nearestUnits_shortest {s k : Nat} (h : Significand s k) :
    (shortest (s * 2 ^ k)).nearestUnits = s * 2 ^ k := by
  simp only [shortest]
  -- a decimal is taken only after it has been read back
  cases hfound : (List.range enoughDigits).findSome? fun (n : Nat) =>
      (neighbours (s * 2 ^ k) (pointOfUnits (s * 2 ^ k) - (n + 1))).find?
        fun d => d.nearestUnits = s * 2 ^ k with
  | none => exact nearestUnits_exact h
  | some d =>
    obtain ⟨n, -, hfind⟩ := List.exists_of_findSome?_eq_some hfound
    have hreads := List.find?_some hfind
    exact of_decide_eq_true hreads

/-- Powers of two are less than powers of ten, as `2 ^ 3` is less than ten. -/
theorem two_pow_le_ten_pow {m n : Nat} (h : m ≤ 3 * n) : 2 ^ m ≤ 10 ^ n := by
  calc 2 ^ m ≤ 2 ^ (3 * n) := Nat.pow_le_pow_right (by decide) h
    _ = (2 ^ 3) ^ n := Nat.pow_mul ..
    _ ≤ 10 ^ n := Nat.pow_le_pow_left (by decide) n

theorem lt_pow_length_decimalDigits (n : Nat) : n < 10 ^ (decimalDigits n).length :=
  (Nat.length_toDigits_le_iff (by decide) (List.length_pos_iff.2 (decimalDigits_ne_nil n))).1
    (Nat.le_refl _)

theorem pow_length_decimalDigits_le {n : Nat} (h : n ≠ 0) :
    10 ^ ((decimalDigits n).length - 1) ≤ n := by
  by_cases hone : (decimalDigits n).length - 1 = 0
  · rw [hone, Nat.pow_zero]
    exact Nat.pos_of_ne_zero h
  · refine Nat.not_lt.1 fun hlt => ?_
    have hle := (Nat.length_toDigits_le_iff (by decide) (Nat.pos_of_ne_zero hone)).2 hlt
    simp only [decimalDigits] at hle hone
    omega

theorem nearestUnits_zero (exponent : Int) : nearestUnits ⟨0, exponent⟩ = 0 :=
  nearestUnits_eq_zero (by simp [numerator, denominator])

theorem unitsInOne_mul_two_le {n : Nat} (h : 1075 ≤ 3 * n) : unitsInOne * 2 ≤ 10 ^ n := by
  have hpower : ∀ m, m + 1 ≤ 3 * n → 2 ^ m * 2 ≤ 10 ^ n := by
    intro m hm
    rw [← Nat.pow_succ]
    exact two_pow_le_ten_pow hm
  rw [unitsInOne]
  exact hpower 1074 h

theorem two_pow_le_unitsInOne_mul {m n : Nat} (h : m ≤ 1074 + 3 * n) :
    2 ^ m ≤ unitsInOne * 10 ^ n := by
  calc 2 ^ m ≤ 2 ^ (1074 + 3 * n) := Nat.pow_le_pow_right (by decide) h
    _ = unitsInOne * 2 ^ (3 * n) := by rw [unitsInOne, ← Nat.pow_add]
    _ ≤ unitsInOne * 10 ^ n := Nat.mul_le_mul_left _ (two_pow_le_ten_pow (Nat.le_refl _))

/-- A coefficient below a power of ten is lost behind enough zeros. -/
theorem two_mul_lt_pow {coefficient unit l m n k : Nat} (hcoefficient : coefficient < 10 ^ l)
    (hunit : unit * 2 ≤ 10 ^ k) (hpos : 0 < unit) (h : l + m + k ≤ n) :
    2 * (coefficient * 10 ^ m * unit) < 10 ^ n := by
  calc 2 * (coefficient * 10 ^ m * unit) = coefficient * (10 ^ m * (unit * 2)) := by ring
    _ < 10 ^ l * (10 ^ m * (unit * 2)) := by gcongr
    _ ≤ 10 ^ l * (10 ^ m * 10 ^ k) := by gcongr
    _ = 10 ^ (l + m + k) := by rw [Nat.pow_add, Nat.pow_add, Nat.mul_assoc]
    _ ≤ 10 ^ n := Nat.pow_le_pow_right (by decide) h

/-- A coefficient from a power of ten on is large in front of enough zeros. -/
theorem mul_pow_le_mul {coefficient unit bound l m n k : Nat} (hcoefficient : 10 ^ l ≤ coefficient)
    (hbound : bound ≤ unit * 10 ^ k) (h : k + n ≤ l + m) :
    bound * 10 ^ n ≤ coefficient * 10 ^ m * unit := by
  calc bound * 10 ^ n ≤ unit * 10 ^ k * 10 ^ n := by gcongr
    _ = 10 ^ (k + n) * unit := by rw [Nat.pow_add]; ring
    _ ≤ 10 ^ (l + m) * unit := by gcongr; decide
    _ = 10 ^ l * 10 ^ m * unit := by rw [Nat.pow_add]
    _ ≤ coefficient * 10 ^ m * unit := by gcongr

/-- A decimal with its point far in front of the digits reads as zero. -/
theorem le_point {d : Decimal} (hne : d.nearestUnits ≠ 0) : -399 ≤ d.point := by
  refine Int.not_lt.1 fun hlt => hne (nearestUnits_eq_zero ?_)
  have hcoefficient := lt_pow_length_decimalDigits d.coefficient
  rw [point] at hlt
  have hexponents : (decimalDigits d.coefficient).length + d.exponent.toNat + 400 ≤
      (-d.exponent).toNat := by omega
  exact two_mul_lt_pow hcoefficient (unitsInOne_mul_two_le (by decide)) unitsInOne_pos hexponents

/-- A decimal with its point far behind the digits reads as no finite number. -/
theorem point_le {d : Decimal} {k : Nat} (hk : k < 2046) (hne : d.nearestUnits ≠ 0)
    (hlt : d.nearestUnits < 2 ^ (k + 1 + storedBits)) : d.point ≤ 401 := by
  refine Int.not_lt.1 fun hpoint => Nat.not_le.2 hlt (le_nearestUnits ?_)
  have hcoefficient : d.coefficient ≠ 0 := by
    intro hzero
    obtain ⟨coefficient, exponent⟩ := d
    obtain rfl : coefficient = 0 := hzero
    exact hne (nearestUnits_zero exponent)
  have hlow := pow_length_decimalDigits_le hcoefficient
  have hpos : 0 < d.denominator := Nat.pow_pos (by decide)
  rw [point] at hpoint
  have hexponents : 401 + (-d.exponent).toNat ≤
      (decimalDigits d.coefficient).length - 1 + d.exponent.toNat := by omega
  have hsize : k + 1 + storedBits ≤ 1074 + 3 * 401 := by
    rw [storedBits]
    omega
  rw [Nat.le_div_iff_mul_le hpos]
  exact mul_pow_le_mul hlow (two_pow_le_unitsInOne_mul hsize) hexponents

end Decimal

/-! ### Reading digits -/

namespace Numeral

theorem clampExponent_eq_self {count : Nat} {exponent : Int} (hlow : -(count + 400) ≤ exponent)
    (hhigh : exponent ≤ count + 400) : clampExponent count exponent = exponent := by
  simp only [clampExponent]
  omega

/-- Digits around a point are read with the value of the digits that they are made of, if the zeros
that were added are counted by the exponent. -/
theorem magnitude?_padded {digits whole fraction : List Char} {point : Int} (count : Nat)
    (hne : whole ≠ []) (hwhole : ∀ c ∈ whole, c.isDigit) (hfraction : ∀ c ∈ fraction, c.isDigit)
    (hdigits : natOfDigits (whole ++ fraction) = natOfDigits digits * 10 ^ count)
    (hlength : (fraction.length : Int) = digits.length - point + count) :
    magnitude? (whole ++ '.' :: fraction) =
      some ⟨natOfDigits digits * 10 ^ count, point - digits.length - count⟩ := by
  have hread := magnitude?_point hne hwhole hfraction (.inl rfl)
  have hclamp : clampExponent (whole ++ fraction).length 0 = 0 :=
    clampExponent_eq_self (by omega) (by omega)
  have hexponent : 0 - (fraction.length : Int) = point - digits.length - count := by omega
  rw [List.append_nil] at hread
  rw [hread, hdigits, exponent?, Option.map_some, hclamp, hexponent]

/-- Digits with the decimal point at its place are read with their value. -/
theorem magnitude?_positional {digits : List Char} (hne : digits ≠ [])
    (h : ∀ c ∈ digits, c.isDigit) (point : Int) :
    ∃ count : Nat, magnitude? (positional digits point) =
      some ⟨natOfDigits digits * 10 ^ count, point - digits.length - count⟩ := by
  rw [positional]
  split
  next hpoint =>
    -- the number is less than one: a zero stands in front of the point
    refine ⟨0, @magnitude?_padded digits ['0'] _ point 0 (by simp) (List.forall_mem_singleton.2 rfl)
      (fun c hc => (List.mem_append.1 hc).elim isDigit_of_mem_replicate_zero (h c)) ?_ ?_⟩
    · have hzero := natOfDigits_replicate_zero ((-point).toNat + 1)
      rw [List.replicate_succ] at hzero
      rw [← List.append_assoc, natOfDigits_append, List.singleton_append, hzero]
      simp
    · simp only [List.length_append, List.length_replicate]
      omega
  next hpoint =>
    have hwhole : point.toNat ≠ 0 := by omega
    have hne' : ∀ zeros : List Char, digits.take point.toNat ++ zeros ≠ [] := by
      simp [hne, hwhole]
    have hwhole' : ∀ c ∈ digits.take point.toNat ++
        List.replicate (point.toNat - digits.length) '0', c.isDigit := fun c hc =>
      (List.mem_append.1 hc).elim (fun hc => h c (List.mem_of_mem_take hc))
        isDigit_of_mem_replicate_zero
    dsimp only
    split
    next hempty =>
      -- the digits are filled up with zeros, and one more stands behind the point
      have hle : digits.length ≤ point.toNat := by simpa using hempty
      refine ⟨_, magnitude?_padded (point.toNat - digits.length + 1) (hne' _) hwhole'
        (List.forall_mem_singleton.2 rfl) ?_ ?_⟩
      · have hfill : List.replicate (point.toNat - digits.length) '0' ++ ['0'] =
            List.replicate (point.toNat - digits.length + 1) '0' := List.replicate_succ'.symm
        rw [List.take_of_length_le hle, List.append_assoc, hfill, natOfDigits_append,
          natOfDigits_replicate_zero, List.length_replicate, Nat.add_zero]
      · simp only [List.length_singleton]
        omega
    next hempty =>
      -- the digits are cut at the point
      have hlt : point.toNat < digits.length := by simpa using hempty
      refine ⟨_, magnitude?_padded 0 (hne' _) hwhole' (fun c hc => h c (List.mem_of_mem_drop hc))
        ?_ ?_⟩
      · rw [Nat.sub_eq_zero_of_le (Nat.le_of_lt hlt), List.replicate_zero, List.append_nil,
          List.take_append_drop, Nat.pow_zero, Nat.mul_one]
      · rw [List.length_drop]
        omega

/-- Digits with an exponent are read with their value, unless the exponent is out of range. -/
theorem magnitude?_scientific {digits : List Char} (hne : digits ≠ [])
    (h : ∀ c ∈ digits, c.isDigit) {exponent : Int} (hlow : -400 ≤ exponent)
    (hhigh : exponent ≤ 400) :
    magnitude? (scientific digits exponent) =
      some ⟨natOfDigits digits, exponent + 1 - digits.length⟩ := by
  have hexponent : ExponentText ('e' :: (toString exponent).toList) := .inr ⟨exponent, rfl⟩
  have hclamp : ∀ count, clampExponent count exponent = exponent := fun count =>
    clampExponent_eq_self (by omega) (by omega)
  rw [scientific.eq_def]
  split
  next => exact absurd rfl hne
  next digit =>
    have hread := @magnitude?_whole [digit] _ (by simp) h hexponent
    rw [List.singleton_append] at hread
    rw [hread, exponent?_toString, Option.map_some, hclamp]
    simp
  next digit fraction _ =>
    have hread := @magnitude?_point [digit] _ _ (by simp)
      (fun c hc => h c (List.mem_singleton.1 hc ▸ .head _)) (fun c hc => h c (.tail _ hc)) hexponent
    rw [List.singleton_append, List.singleton_append] at hread
    rw [hread, exponent?_toString, Option.map_some, hclamp]
    simp

end Numeral

/-! ### The round trip -/

/-- The decimal that is written for a magnitude reads back, and its point is so near to the digits
that no exponent is out of range. -/
theorem Layout.decimal_spec {layout : Layout} (hdigits : layout.digits = none) {s k : Nat}
    (h : Binary64.Significand s k) (hk : k < 2046) :
    (layout.decimal (s * 2 ^ k)).nearestUnits = s * 2 ^ k ∧
      -399 ≤ (layout.decimal (s * 2 ^ k)).point ∧ (layout.decimal (s * 2 ^ k)).point ≤ 401 := by
  have hlt : s * 2 ^ k < 2 ^ (k + 1 + Binary64.storedBits) := by
    calc s * 2 ^ k < 2 ^ 53 * 2 ^ k := Nat.mul_lt_mul_of_pos_right h.lt (Nat.two_pow_pos k)
      _ = 2 ^ (53 + k) := (Nat.pow_add ..).symm
      _ = 2 ^ (k + 1 + Binary64.storedBits) := by rw [Binary64.storedBits]; congr 1; omega
  have hreads := Decimal.nearestUnits_shortest h
  generalize s * 2 ^ k = units at hlt hreads ⊢
  rw [Layout.decimal, hdigits]
  split
  next hzero =>
    subst hzero
    exact ⟨Decimal.nearestUnits_zero 0, by decide, by decide⟩
  next hne =>
    have hne' : (Decimal.shortest units).nearestUnits ≠ 0 := by rwa [hreads]
    rw [← hreads] at hlt
    exact ⟨hreads, Decimal.le_point hne', Decimal.point_le hk hne' hlt⟩

/-- The text of a magnitude is read as a decimal that reads back. -/
theorem Layout.exists_magnitude? {layout : Layout} (hdigits : layout.digits = none) {s k : Nat}
    (h : Binary64.Significand s k) (hk : k < 2046) :
    ∃ d, Numeral.magnitude? (layout.magnitude (s * 2 ^ k)) = some d ∧
      d.nearestUnits = s * 2 ^ k := by
  obtain ⟨hreads, hlow, hhigh⟩ := decimal_spec hdigits h hk
  generalize s * 2 ^ k = units at hreads hlow hhigh ⊢
  have hvalue := (layout.decimal units).nearestUnits_dropTrailingZeros
  have hsome : layout.digits ≠ some 0 := by simp [hdigits]
  obtain ⟨hne, hall⟩ := written_spec hsome (layout.decimal units)
  have hwritten : layout.written (layout.decimal units) =
      dropTrailingZeros (decimalDigits (layout.decimal units).coefficient) := by
    rw [Layout.written, hdigits]
  rw [← hwritten, hreads] at hvalue
  rw [magnitude]
  split
  · obtain ⟨count, hread⟩ := Numeral.magnitude?_positional hne hall (layout.decimal units).point
    refine ⟨_, hread, ?_⟩
    rw [Decimal.nearestUnits_mul_pow, Int.sub_add_cancel, hvalue]
  · have hread := Numeral.magnitude?_scientific hne hall
      (show -400 ≤ (layout.decimal units).point - 1 by omega) (by omega)
    rw [Int.sub_add_cancel] at hread
    exact ⟨_, hread, hvalue⟩

/-- A layout that does not round writes what can be read back. -/
theorem Layout.read?_write {layout : Layout} (hdigits : layout.digits = none) (x : Float) :
    Number.read? (layout.write x) = some x := by
  rw [Number.read?, write, String.toList_ofList, chars]
  split
  next hnan => exact congrArg some (Binary64.nan_of_parts hnan)
  next negative hinfinite =>
    have hread : Numeral.ofChars? (sign negative ++ "inf".toList) = some (.infinite negative) := by
      cases negative <;> decide
    rw [hread]
    exact congrArg some (Binary64.infinity_of_parts hinfinite)
  next negative units hfinite =>
    obtain ⟨s, k, hs, rfl, hk, -⟩ := Binary64.exists_significand_of_parts hfinite
    obtain ⟨d, hread, hreads⟩ := exists_magnitude? hdigits hs hk
    have htext : MagnitudeText (layout.magnitude (s * 2 ^ k)) :=
      magnitudeText_magnitude (by simp [hdigits]) _
    have hfloat : d.toFloat negative = Binary64.pack negative d.nearestUnits := rfl
    rw [htext.ofChars?_eq, hread, Option.map_some, Option.map_some, Numeral.toFloat, hfloat, hreads,
      Binary64.pack_of_parts hfinite]

/-- The text of a number is read as this number. -/
theorem Number.read?_text (x : Float) : Number.read? (Number.text x) = some x :=
  Layout.read?_write rfl x

end Reckoner
