import Mathlib
import Reckoner.Binary64

/-!
# Floats and their units

A float is determined by its parts: from its sign and its magnitude `pack` makes the same float
again. A magnitude that a significand can hold is the nearest one to itself, and to every fraction
of the same value.

## Main definitions

* `Significand s k`: a significand `s` of 53 bits with `k` zeros behind it.

## Main results

* `Binary64.pack_of_parts`, `Binary64.infinity_of_parts` and `Binary64.nan_of_parts`: a float from
  its parts;
* `Binary64.parts_pack`: the parts of a float that is made from a sign and a magnitude;
* `Binary64.nearestUnits_of_significand`: what a significand holds is not rounded;
* `Binary64.nearestUnits_congr`: rounding depends on the value of a fraction only;
* `Binary64.le_nearestUnits` and `Binary64.nearestUnits_eq_zero`: how rounding keeps to a size.
-/

namespace Reckoner.Binary64

theorem unitsInOne_pos : 0 < unitsInOne := by
  rw [unitsInOne]
  positivity

/-- A float is made again from its bits. -/
theorem ofBits_toBits (x : Float) : Float.ofBits x.toBits = x := by
  obtain ⟨⟨bits, hvalid⟩⟩ := x
  have hpack := Float.Model.UnpackedFloat.pack_unpack_of_valid hvalid
  simp only [Float.ofBits, Float.toBits, Float.Model.ofBits, Float.Model.pack, hpack]

/-- A float is made again from its sign bit and the bits below it. -/
theorem ofBits_mod (x : Float) :
    ofBits (decide (2 ^ (63 : Nat) ≤ x.toBits.toNat)) (x.toBits.toNat % 2 ^ (63 : Nat)) = x := by
  have hlt : x.toBits.toNat < 2 ^ 64 := x.toBits.toNat_lt
  have hbits : (if decide (2 ^ (63 : Nat) ≤ x.toBits.toNat) then 2 ^ (63 : Nat) else 0) +
      x.toBits.toNat % 2 ^ (63 : Nat) = x.toBits.toNat := by
    simp only [decide_eq_true_eq]
    split <;> omega
  rw [ofBits, hbits, UInt64.ofNat_toNat, ofBits_toBits]

/-- A magnitude is held by a significand `s` of 53 bits with `k` zeros behind it. A significand that
does not use its leading bit has no zeros behind it. -/
structure Significand (s k : Nat) : Prop where
  lt : s < 2 ^ 53
  normal : 2 ^ 52 ≤ s ∨ k = 0

/-- The spacing of floats at a magnitude is told by the zeros behind its significand. -/
theorem Significand.spacing_eq {s k : Nat} (h : Significand s k) : spacing (s * 2 ^ k) = k := by
  rw [spacing, storedBits]
  rcases h.normal with hlow | rfl
  · have hpos : s * 2 ^ k ≠ 0 := by positivity
    have hlog : (s * 2 ^ k).log2 = 52 + k := by
      have hhigh := h.lt
      refine (Nat.log2_eq_iff hpos).2 ⟨?_, ?_⟩
      · calc 2 ^ (52 + k) = 2 ^ 52 * 2 ^ k := Nat.pow_add ..
          _ ≤ s * 2 ^ k := by gcongr
      · calc s * 2 ^ k < 2 ^ 53 * 2 ^ k := by gcongr
          _ = 2 ^ (52 + k + 1) := by ring
    omega
  · have hlog : s.log2 < 53 := by
      by_cases hzero : s = 0
      · simp [hzero]
      · exact (Nat.log2_lt hzero).2 h.lt
    rw [Nat.pow_zero, Nat.mul_one]
    omega

/-- How many zeros behind a significand keep a magnitude below a power of two. -/
theorem Significand.lt_two_pow_iff {s k p : Nat} (h : Significand s k) (hp : 0 < p) :
    s * 2 ^ k < 2 ^ 52 * 2 ^ p ↔ k < p := by
  have hlt := h.lt
  rcases Nat.lt_or_ge k p with hk | hk
  · refine iff_of_true ?_ hk
    calc s * 2 ^ k < 2 ^ 53 * 2 ^ k := by gcongr
      _ = 2 ^ 52 * 2 ^ (k + 1) := by ring
      _ ≤ 2 ^ 52 * 2 ^ p := by gcongr <;> omega
  · have hleading : 2 ^ 52 ≤ s := h.normal.resolve_right (by omega)
    refine iff_of_false (Nat.not_lt.2 ?_) (Nat.not_lt.2 hk)
    gcongr
    decide

/-- The parts of a finite number tell the bits below its sign, by way of a significand. -/
theorem exists_significand_of_parts {x : Float} {negative : Bool} {units : Nat}
    (h : parts x = .finite negative units) :
    ∃ s k, Significand s k ∧ units = s * 2 ^ k ∧ k < 2046 ∧
      negative = decide (2 ^ (63 : Nat) ≤ x.toBits.toNat) ∧
      x.toBits.toNat % 2 ^ (63 : Nat) = k * 2 ^ storedBits + s := by
  rw [parts] at h
  generalize x.toBits.toNat = bits at h ⊢
  split at h
  next => split at h <;> cases h
  next hspecial =>
    split at h
    next hzero =>
      obtain ⟨rfl, rfl⟩ := Parts.finite.inj h
      refine ⟨_, 0, ⟨?_, .inr rfl⟩, (Nat.mul_one _).symm, by decide, rfl, ?_⟩
      all_goals simp only [storedBits] at *; omega
    next hzero =>
      obtain ⟨rfl, rfl⟩ := Parts.finite.inj h
      refine ⟨_, _, ⟨?_, .inl ?_⟩, rfl, ?_, rfl, ?_⟩
      all_goals simp only [storedBits, specialField] at *; omega

/-- A finite float is made again from its sign and its magnitude. -/
theorem pack_of_parts {x : Float} {negative : Bool} {units : Nat}
    (h : parts x = .finite negative units) : pack negative units = x := by
  obtain ⟨s, k, hs, rfl, hk, rfl, hbits⟩ := exists_significand_of_parts h
  have hlt := hs.lt
  have hmagnitude : min (k * 2 ^ storedBits + s) infinityBits = k * 2 ^ storedBits + s := by
    simp only [storedBits, infinityBits, specialField]
    omega
  rw [pack, hs.spacing_eq, Nat.mul_div_cancel s (Nat.two_pow_pos k), hmagnitude, ← hbits,
    ofBits_mod]

/-- An infinity is made again from its sign. -/
theorem infinity_of_parts {x : Float} {negative : Bool} (h : parts x = .infinite negative) :
    infinity negative = x := by
  have hbits : negative = decide (2 ^ (63 : Nat) ≤ x.toBits.toNat) ∧
      x.toBits.toNat % 2 ^ (63 : Nat) = infinityBits := by
    rw [parts] at h
    generalize x.toBits.toNat = bits at h ⊢
    split at h
    next hspecial =>
      split at h
      next hzero =>
        refine ⟨(Parts.infinite.inj h).symm, ?_⟩
        simp only [storedBits, infinityBits, specialField] at *
        omega
      next => cases h
    next => split at h <;> cases h
  rw [infinity, hbits.1, ← hbits.2, ofBits_mod]

/-- There is one float that is not a number. -/
theorem nan_of_parts {x : Float} (h : parts x = .nan) : nan = x := by
  have hfields : x.toBits.toNat % 2 ^ (63 : Nat) / 2 ^ (52 : Nat) = 2047 ∧
      x.toBits.toNat % 2 ^ (52 : Nat) ≠ 0 := by
    rw [parts] at h
    generalize x.toBits.toNat = bits at h ⊢
    split at h
    next hspecial =>
      split at h
      next => cases h
      next hzero => exact ⟨hspecial, hzero⟩
    next => split at h <;> cases h
  obtain ⟨⟨⟨bits⟩, hvalid⟩⟩ := x
  obtain ⟨hfield, hfraction⟩ : bits.toNat % 2 ^ (63 : Nat) / 2 ^ (52 : Nat) = 2047 ∧
      bits.toNat % 2 ^ (52 : Nat) ≠ 0 := hfields
  have hexponent : (BitVec.extractLsb' 52 11 bits).toNat = 2047 := by
    rw [BitVec.extractLsb'_toNat, Nat.shiftRight_eq_div_pow]
    omega
  have hmantissa : (BitVec.extractLsb' 0 52 bits).toNat ≠ 0 := by
    rwa [BitVec.extractLsb'_toNat, Nat.shiftRight_zero]
  -- the bits of what is no number are fixed once its exponent is known
  have hbits := hvalid.eq_packedNaN
    (BitVec.eq_of_toNat_eq (by rwa [Float.Model.UnpackedFloat.unpackExponent_def]))
    (fun hzero => hmantissa (by
      rw [Float.Model.UnpackedFloat.unpackMantissa_def] at hzero
      exact congrArg BitVec.toNat hzero))
  dsimp only at hbits
  subst hbits
  rfl

/-- Bits that stand for a number or an infinity are those of the float that is made from them. -/
theorem toBits_ofBits {bits : UInt64}
    (h : bits.toNat % 2 ^ (63 : Nat) / 2 ^ storedBits ≠ specialField) :
    (Float.ofBits bits).toBits = bits := by
  have hvalid : Float.Model.Format.binary64.Valid bits.toBitVec := by
    refine ⟨fun hexponent _ => absurd ?_ h⟩
    have hfield : (BitVec.extractLsb' 52 11 bits.toBitVec).toNat = 2047 := by
      rw [Float.Model.UnpackedFloat.unpackExponent_def] at hexponent
      exact congrArg BitVec.toNat hexponent
    rw [BitVec.extractLsb'_toNat, Nat.shiftRight_eq_div_pow] at hfield
    change bits.toNat / 2 ^ 52 % 2 ^ 11 = 2047 at hfield
    simp only [storedBits, specialField]
    omega
  have hpack := Float.Model.UnpackedFloat.pack_unpack_of_valid hvalid
  simp only [Float.ofBits, Float.toBits, Float.Model.ofBits, Float.Model.pack, hpack]

/-- The bits of a float that is made from a sign and the bits of a finite number. -/
theorem toNat_toBits_ofBits {magnitude : Nat} (h : magnitude < infinityBits) (negative : Bool) :
    (ofBits negative magnitude).toBits.toNat =
      (if negative then 2 ^ (63 : Nat) else 0) + magnitude := by
  have hbits : (UInt64.ofNat ((if negative then 2 ^ (63 : Nat) else 0) + magnitude)).toNat =
      (if negative then 2 ^ (63 : Nat) else 0) + magnitude := by
    refine Nat.mod_eq_of_lt ?_
    simp only [infinityBits, specialField, storedBits] at h
    split <;> omega
  rw [ofBits, toBits_ofBits, hbits]
  rw [hbits]
  simp only [infinityBits, specialField, storedBits] at h ⊢
  split <;> omega

/-- A magnitude that a significand holds is found again in the float that is made from it. -/
theorem parts_pack {s k : Nat} (h : Significand s k) (hk : k < 2046) (negative : Bool) :
    parts (pack negative (s * 2 ^ k)) = .finite negative (s * 2 ^ k) := by
  have hlt := h.lt
  have hfinite : k * 2 ^ storedBits + s < infinityBits := by
    simp only [storedBits, infinityBits, specialField]
    omega
  have hbits := toNat_toBits_ofBits hfinite negative
  have hsign : decide (2 ^ (63 : Nat) ≤
      (if negative then 2 ^ (63 : Nat) else 0) + (k * 2 ^ storedBits + s)) = negative := by
    simp only [infinityBits, specialField, storedBits] at hfinite ⊢
    cases negative
    · simp only [Bool.false_eq_true, if_false, decide_eq_false_iff_not]
      omega
    · simp
  have hbelow : ((if negative then 2 ^ (63 : Nat) else 0) + (k * 2 ^ storedBits + s)) %
      2 ^ (63 : Nat) = k * 2 ^ storedBits + s := by
    simp only [infinityBits, specialField, storedBits] at hfinite ⊢
    split <;> omega
  have hfraction : ((if negative then 2 ^ (63 : Nat) else 0) + (k * 2 ^ storedBits + s)) %
      2 ^ storedBits = s % 2 ^ storedBits := by
    simp only [storedBits]
    split <;> omega
  rw [pack, h.spacing_eq, Nat.mul_div_cancel s (Nat.two_pow_pos k), Nat.min_eq_left hfinite.le,
    parts]
  simp only [hbits, hsign, hbelow, hfraction]
  by_cases hlow : 2 ^ 52 ≤ s
  -- a leading bit stands in the exponent field
  · have hfield : (k * 2 ^ storedBits + s) / 2 ^ storedBits = k + 1 := by
      simp only [storedBits]
      omega
    have hleading : 2 ^ storedBits + s % 2 ^ storedBits = s := by
      simp only [storedBits]
      omega
    rw [hfield, hleading, if_neg (by simp only [specialField]; omega),
      if_neg (Nat.succ_ne_zero k), Nat.add_sub_cancel]
  · obtain rfl := h.normal.resolve_left hlow
    have hfield : (0 * 2 ^ storedBits + s) / 2 ^ storedBits = 0 := by
      simp only [storedBits]
      omega
    have hsmall : s % 2 ^ storedBits = s := by
      simp only [storedBits]
      omega
    rw [hfield, hsmall, if_neg (by decide), if_pos rfl, Nat.pow_zero, Nat.mul_one]

/-! ### Rounding to a magnitude -/

/-- A quotient that is a whole number is not rounded. -/
theorem roundQuotient_mul (tie : Tie) (q : Nat) {d : Nat} (hd : 0 < d) :
    roundQuotient tie (q * d) d = q := by
  simp [roundQuotient, Nat.mul_div_cancel q hd, hd]

/-- Rounding depends on the value of a quotient only. -/
theorem roundQuotient_mul_mul (tie : Tie) (n d : Nat) {k : Nat} (hk : 0 < k) :
    roundQuotient tie (n * k) (d * k) = roundQuotient tie n d := by
  have hlt : ∀ a b, a * k < b * k ↔ a < b := fun a b => Nat.mul_lt_mul_right hk
  simp only [roundQuotient, Nat.mul_div_mul_right n d hk, Nat.mul_mod_mul_right, ← Nat.mul_assoc,
    hlt]

/-- What a significand holds is not rounded. -/
theorem nearestUnits_of_significand {s k d : Nat} (h : Significand s k) (hd : 0 < d) :
    nearestUnits (s * 2 ^ k * d) d = s * 2 ^ k := by
  have hquotient : s * 2 ^ k * d / d = s * 2 ^ k := Nat.mul_div_cancel _ hd
  have hstep : s * 2 ^ k * d = s * (d * 2 ^ k) := by ring
  rw [nearestUnits, hquotient, h.spacing_eq, hstep, roundQuotient_mul _ _ (by positivity)]

theorem nearestUnits_mul_mul (n d : Nat) {k : Nat} (hk : 0 < k) :
    nearestUnits (n * k) (d * k) = nearestUnits n d := by
  have hstep : ∀ step, d * k * step = d * step * k := fun step => by ring
  simp only [nearestUnits, Nat.mul_div_mul_right n d hk, hstep, roundQuotient_mul_mul _ _ _ hk]

/-- Fractions of the same value are rounded to the same magnitude. -/
theorem nearestUnits_congr {n d n' d' : Nat} (hd : 0 < d) (hd' : 0 < d') (h : n * d' = n' * d) :
    nearestUnits n d = nearestUnits n' d' := by
  rw [← nearestUnits_mul_mul n d hd', h, Nat.mul_comm d d', nearestUnits_mul_mul n' d' hd]

/-- A value of `2 ^ k` units and more is not rounded to less. -/
theorem le_nearestUnits {n d k : Nat} (h : 2 ^ (k + storedBits) ≤ n / d) :
    2 ^ (k + storedBits) ≤ nearestUnits n d := by
  have hne : n / d ≠ 0 := by
    have hpos := Nat.two_pow_pos (k + storedBits)
    omega
  have hlog : k + storedBits ≤ (n / d).log2 := (Nat.le_log2 hne).2 h
  -- the significand keeps its leading bit when the bits behind it are cut off
  have hsize : (n / d).log2 = storedBits + spacing (n / d) := by rw [spacing]; omega
  have hbelow : 2 ^ storedBits ≤ n / (d * 2 ^ spacing (n / d)) := by
    rw [← Nat.div_div_eq_div_mul, Nat.le_div_iff_mul_le (Nat.two_pow_pos _), ← Nat.pow_add, ← hsize]
    exact Nat.log2_self_le hne
  have hround : n / (d * 2 ^ spacing (n / d)) ≤
      roundQuotient .toEven n (d * 2 ^ spacing (n / d)) := by
    simp only [roundQuotient]
    split_ifs <;> omega
  calc 2 ^ (k + storedBits) ≤ 2 ^ (storedBits + spacing (n / d)) :=
        Nat.pow_le_pow_right (by decide) (hsize ▸ hlog)
    _ = 2 ^ storedBits * 2 ^ spacing (n / d) := Nat.pow_add ..
    _ ≤ nearestUnits n d := Nat.mul_le_mul_right _ (hbelow.trans hround)

/-- Less than half a unit is rounded to nothing. -/
theorem nearestUnits_eq_zero {n d : Nat} (h : 2 * n < d) : nearestUnits n d = 0 := by
  have hquotient : n / d = 0 := Nat.div_eq_of_lt (by omega)
  have hleft : n % d = n := Nat.mod_eq_of_lt (by omega)
  simp [nearestUnits, spacing, roundQuotient, hquotient, hleft, h]

end Reckoner.Binary64
