import Reckoner.Proofs.Words

/-!
# The nearest float

What it means for a float to be the nearest one to a number that is not negative, said of the
numbers themselves, and that the rounding of fractions finds it. Two floats may be as near as each
other: the last bit of the nearest one is zero then. Infinity counts as the float that follows the
greatest finite one, which is `2 ^ 1024`.

Floats are compared as whole numbers of units. A magnitude that is rounded is compared with every
significand: one of the same spacing or a wider one is a multiple of the step, and one of a narrower
spacing lies below the power of two at which the step begins.

## Main definitions

* `Binary64.toRat negative units`: the number that a sign and a magnitude stand for;
* `Binary64.IsNearest v x`: the float `x` is the nearest one to `v`.

## Main results

* `Binary64.roundQuotient_lt_or`: no natural number is nearer to a quotient than the one to which it
  is rounded;
* `Binary64.nearestUnits_lt_or`: no significand is nearer than the magnitude to which a quotient is
  rounded;
* `Binary64.nearestUnits_lt_iff`: when a rounded magnitude stays below a power of two;
* `Binary64.isNearest_iff`: the nearest float is the one to which a fraction is rounded.
-/

namespace Reckoner.Binary64

/-- The number that a sign and a magnitude in units stand for. -/
def toRat (negative : Bool) (units : Nat) : ℚ :=
  signed negative units / unitsInOne

/-- The float is the nearest one to a number that is not negative. -/
inductive IsNearest (v : ℚ) : Float → Prop
  /-- No finite float is nearer. If another one is as near, the last bit of this one is zero. -/
  | finite {x : Float} {units : Nat} (hrange : v < 2 ^ 1024 - 2 ^ 970)
      (hx : parts x = .finite false units)
      (hnearest : ∀ y negative other, parts y = .finite negative other →
        |v - toRat false units| ≤ |v - toRat negative other|)
      (heven : ∀ y negative other, parts y = .finite negative other →
        |v - toRat false units| = |v - toRat negative other| →
          toRat negative other = toRat false units ∨ x.toBits.toNat % 2 = 0) :
      IsNearest v x
  /-- Half a step behind the greatest finite float, infinity is the nearest one. -/
  | infinite (hrange : 2 ^ 1024 - 2 ^ 970 ≤ v) : IsNearest v (infinity false)

/-- A quotient is rounded by no more than one half, and by one half only to an even number. -/
theorem roundQuotient_spec (n : Nat) {d : Nat} (hd : 0 < d) :
    2 * |(n : Int) - roundQuotient .toEven n d * d| ≤ d ∧
      (2 * |(n : Int) - roundQuotient .toEven n d * d| = d →
        roundQuotient .toEven n d % 2 = 0) := by
  have hsplit : (n : Int) = (n / d : Nat) * d + (n % d : Nat) := by
    exact_mod_cast (Nat.div_add_mod' n d).symm
  have hlt := Nat.mod_lt n hd
  simp only [roundQuotient]
  generalize n / d = below at *
  generalize n % d = left at *
  have hbelow : |(n : Int) - below * d| = left := by
    rw [hsplit, add_sub_cancel_left, Nat.abs_cast]
  have habove : |(n : Int) - (below + 1 : Nat) * d| = d - left := by
    have hmissing : (n : Int) - (below + 1 : Nat) * d = left - d := by
      rw [hsplit]
      push_cast
      ring
    rw [hmissing, abs_of_neg (by omega), neg_sub]
  split_ifs with hsmall hlarge
  · rw [hbelow]
    omega
  · rw [habove]
    omega
  · rcases Nat.mod_two_eq_zero_or_one below with heven | hodd
    · rw [heven, Nat.add_zero, hbelow]
      omega
    · rw [hodd, habove]
      omega

/-- No natural number is nearer to a quotient than the one to which it is rounded. One that is as
near is odd, and the quotient is rounded to an even number then. -/
theorem roundQuotient_lt_or (n : Nat) {d : Nat} (hd : 0 < d) (m : Nat) :
    |(n : Int) - roundQuotient .toEven n d * d| < |(n : Int) - m * d| ∨
      m = roundQuotient .toEven n d ∨
      |(n : Int) - roundQuotient .toEven n d * d| = |(n : Int) - m * d| ∧
        roundQuotient .toEven n d % 2 = 0 ∧ m % 2 = 1 := by
  obtain ⟨hhalf, heven⟩ := roundQuotient_spec n hd
  generalize roundQuotient .toEven n d = r at hhalf heven ⊢
  by_cases hm : m = r
  · exact .inr (.inl hm)
  -- the other number is one step away, or it is farther away than the quotient can be
  have hne : (r : Int) - m ≠ 0 := by omega
  have hpos : (0 : Int) < d := by omega
  have hstep : |(r : Int) - m| * d ≤ |(n : Int) - r * d| + |(n : Int) - m * d| := by
    have hsplit : ((r : Int) - m) * d = (n - m * d) - (n - r * d) := by ring
    rw [← abs_of_pos hpos, ← abs_mul, abs_of_pos hpos, hsplit, add_comm]
    exact abs_sub _ _
  rcases (Int.one_le_abs hne).eq_or_lt with hone | htwo
  · rw [← hone, one_mul] at hstep
    rcases lt_or_ge |(n : Int) - r * d| |(n : Int) - m * d| with hlt | hge
    · exact .inl hlt
    · have hequal := heven (by omega)
      have hodd : m % 2 = 1 := by
        rcases (abs_eq Int.one_nonneg).1 hone.symm with hbelow | habove <;> omega
      exact .inr (.inr ⟨by omega, hequal, hodd⟩)
  · have hfar : 2 * (d : Int) ≤ |(r : Int) - m| * d := Int.mul_le_mul_of_nonneg_right htwo hpos.le
    exact .inl (by omega)

/-- The spacing of floats at a magnitude leaves 53 bits, or all of them. -/
theorem spacing_spec (q : Nat) :
    (spacing q = 0 ∨ 2 ^ storedBits * 2 ^ spacing q ≤ q) ∧
      q < 2 ^ (storedBits + 1) * 2 ^ spacing q := by
  have hhigh : q < 2 ^ (q.log2 + 1) := Nat.lt_log2_self
  refine ⟨?_, ?_⟩
  · by_cases hzero : spacing q = 0
    · exact .inl hzero
    · rw [← Nat.pow_add]
      have hexponent : storedBits + spacing q = q.log2 := by rw [spacing] at hzero ⊢; omega
      rw [hexponent]
      refine .inr (Nat.log2_self_le ?_)
      rintro rfl
      exact hzero (by decide)
  · rw [← Nat.pow_add]
    refine hhigh.trans_le (Nat.pow_le_pow_right (by decide) ?_)
    rw [spacing]
    omega

theorem exists_significand_nearestUnits (n d : Nat) :
    ∃ s k, Significand s k ∧ nearestUnits n d = s * 2 ^ k ∧
      s % 2 = roundQuotient .toEven n (d * 2 ^ spacing (n / d)) % 2 := by
  have hround : ∀ m, n / m ≤ roundQuotient .toEven n m ∧ roundQuotient .toEven n m ≤ n / m + 1 := by
    intro m
    simp only [roundQuotient]
    split_ifs <;> omega
  obtain ⟨hlow, hhigh⟩ := spacing_spec (n / d)
  obtain ⟨hge, hle⟩ := hround (d * 2 ^ spacing (n / d))
  rw [nearestUnits]
  rw [← Nat.div_div_eq_div_mul] at hge hle
  generalize roundQuotient .toEven n (d * 2 ^ spacing (n / d)) = r at hge hle ⊢
  generalize spacing (n / d) = k at hlow hhigh hge hle ⊢
  have hpos := Nat.two_pow_pos k
  have hbelow : n / d / 2 ^ k < 2 ^ 53 := (Nat.div_lt_iff_lt_mul hpos).2 hhigh
  have hnormal : 2 ^ 52 ≤ n / d / 2 ^ k ∨ k = 0 :=
    hlow.symm.imp_left (Nat.le_div_iff_mul_le hpos).2
  rcases Nat.lt_or_ge r (2 ^ 53) with hlt | hge'
  · exact ⟨r, k, ⟨hlt, hnormal.imp_left hge.trans'⟩, rfl, rfl⟩
  · -- rounding up has made a bit too many, and all others zero
    obtain rfl : r = 2 ^ 53 := by omega
    exact ⟨2 ^ 52, k + 1, ⟨by decide, .inl (Nat.le_refl _)⟩, by ring, rfl⟩

/-- No significand is nearer to a quotient than the magnitude to which it is rounded. One that is as
near is odd, and the magnitude is that of an even significand then. -/
theorem nearestUnits_lt_or (n : Nat) {d s k : Nat} (hd : 0 < d) (h : Significand s k) :
    |(n : Int) - nearestUnits n d * d| < |(n : Int) - (s * 2 ^ k : Nat) * d| ∨
      s * 2 ^ k = nearestUnits n d ∨
      |(n : Int) - nearestUnits n d * d| = |(n : Int) - (s * 2 ^ k : Nat) * d| ∧
        roundQuotient .toEven n (d * 2 ^ spacing (n / d)) % 2 = 0 ∧ s % 2 = 1 := by
  have hlow := (spacing_spec (n / d)).1
  have hround := roundQuotient_lt_or n (d := d * 2 ^ spacing (n / d)) (by positivity)
  rw [nearestUnits]
  generalize roundQuotient .toEven n (d * 2 ^ spacing (n / d)) = r at hround ⊢
  generalize spacing (n / d) = l at hlow hround ⊢
  have hstep : ∀ m : Nat, (m : Int) * (d * 2 ^ l : Nat) = (m * 2 ^ l : Nat) * d := by
    intro m
    push_cast
    ring
  simp only [hstep] at hround
  rcases Nat.lt_or_ge k l with hlt | hge
  · -- the significand is that of a smaller size, and less than a magnitude below the quotient
    have hless : s * 2 ^ k < 2 ^ storedBits * 2 ^ l := by
      calc s * 2 ^ k < 2 ^ 53 * 2 ^ k := by gcongr; exact h.lt
        _ = 2 ^ storedBits * 2 ^ (k + 1) := by rw [storedBits]; ring
        _ ≤ 2 ^ storedBits * 2 ^ l := by gcongr <;> omega
    have hbelow : 2 ^ storedBits * 2 ^ l * d ≤ n :=
      (Nat.le_div_iff_mul_le hd).1 (hlow.resolve_left (by omega))
    have hnearer : |(n : Int) - (r * 2 ^ l : Nat) * d| ≤
        |(n : Int) - (2 ^ storedBits * 2 ^ l : Nat) * d| := by
      rcases hround (2 ^ storedBits) with hlt | heq | heq
      · exact hlt.le
      · rw [heq]
      · exact heq.1.le
    generalize 2 ^ storedBits * 2 ^ l = bound at hless hbelow hnearer
    have hbelow' : (bound : Int) * d ≤ n := by exact_mod_cast hbelow
    have hmore : ((s * 2 ^ k : Nat) : Int) * d < bound * d := by exact_mod_cast by gcongr
    rw [abs_of_nonneg (sub_nonneg.2 hbelow')] at hnearer
    exact .inl (hnearer.trans_lt ((sub_lt_sub_left hmore _).trans_le (le_abs_self _)))
  · obtain ⟨j, rfl⟩ := Nat.exists_eq_add_of_le hge
    have hmultiple : s * 2 ^ (l + j) = s * 2 ^ j * 2 ^ l := by
      rw [Nat.pow_add]
      ring
    rw [hmultiple]
    rcases hround (s * 2 ^ j) with hless | heq | ⟨heq, heven, hodd⟩
    · exact .inl hless
    · exact .inr (.inl (by rw [heq]))
    · refine .inr (.inr ⟨heq, heven, ?_⟩)
      exact Nat.odd_iff.1 (Nat.Odd.of_mul_left (Nat.odd_iff.2 hodd))

theorem nearestUnits_le (n : Nat) {d s k : Nat} (hd : 0 < d) (h : Significand s k) :
    |(n : Int) - nearestUnits n d * d| ≤ |(n : Int) - (s * 2 ^ k : Nat) * d| := by
  rcases nearestUnits_lt_or n hd h with hlt | heq | heq
  · exact hlt.le
  · rw [heq]
  · exact heq.1.le

/-- Below a power of two there is a greatest significand. -/
theorem Significand.le_of_lt {s k p : Nat} (h : Significand s k)
    (hlt : s * 2 ^ k < 2 ^ 52 * 2 ^ (p + 1)) : s * 2 ^ k ≤ (2 ^ 53 - 1) * 2 ^ p := by
  have hs := h.lt
  have hk := (h.lt_two_pow_iff p.succ_pos).1 hlt
  gcongr
  · omega
  · decide
  · omega

/-- What is nearer to `u` than to `y` lies below the middle of `x` and `y`, if `x` stands between.
-/
theorem two_mul_lt_of_abs_lt {n u x y : Int} (hle : u ≤ x) (hlt : x < y)
    (h : |n - u| < |n - y|) : 2 * n < x + y := by
  rcases abs_cases (n - u) with ⟨hu, hu'⟩ | ⟨hu, hu'⟩ <;>
    rcases abs_cases (n - y) with ⟨hy, hy'⟩ | ⟨hy, hy'⟩ <;> omega

/-- What is as near to `u` as to `x` does not lie below the middle of `x` and `y`, if `y` stands
between. -/
theorem le_two_mul_of_abs_le {n u x y : Int} (hlt : x < y) (hle : y ≤ u)
    (h : |n - u| ≤ |n - x|) : x + y ≤ 2 * n := by
  rcases abs_cases (n - u) with ⟨hu, hu'⟩ | ⟨hu, hu'⟩ <;>
    rcases abs_cases (n - x) with ⟨hx, hx'⟩ | ⟨hx, hx'⟩ <;> omega

/-- A quotient is rounded to a magnitude below a power of two exactly if it lies below the middle of
that power and the greatest significand in front of it. -/
theorem nearestUnits_lt_iff (n : Nat) {d : Nat} (hd : 0 < d) (p : Nat) :
    nearestUnits n d < 2 ^ 52 * 2 ^ (p + 2) ↔ n < (2 ^ 54 - 1) * 2 ^ p * d := by
  have hgreatest : Significand (2 ^ 53 - 1) (p + 1) := ⟨by decide, .inl (by decide)⟩
  have hpower : Significand (2 ^ 52) (p + 2) := ⟨by decide, .inl (by decide)⟩
  have hbelow := nearestUnits_le n hd hgreatest
  have habove := nearestUnits_lt_or n hd hpower
  obtain ⟨s, k, hs, hunits, -⟩ := exists_significand_nearestUnits n d
  have hle : nearestUnits n d < 2 ^ 52 * 2 ^ (p + 2) →
      nearestUnits n d ≤ (2 ^ 53 - 1) * 2 ^ (p + 1) := by
    rw [hunits]
    exact hs.le_of_lt
  have hlt : (2 ^ 53 - 1) * 2 ^ (p + 1) < 2 ^ 52 * 2 ^ (p + 2) :=
    (hgreatest.lt_two_pow_iff (by omega)).2 (by omega)
  have hmiddle : ((2 ^ 53 - 1) * 2 ^ (p + 1) + 2 ^ 52 * 2 ^ (p + 2)) * d =
      2 * ((2 ^ 54 - 1) * 2 ^ p * d) := by ring
  generalize (2 ^ 54 - 1) * 2 ^ p * d = middle at hmiddle ⊢
  generalize (2 ^ 53 - 1) * 2 ^ (p + 1) = greatest at hbelow hle hlt hmiddle
  generalize 2 ^ 52 * 2 ^ (p + 2) = power at habove hle hlt hmiddle ⊢
  generalize nearestUnits n d = units at *
  have hmiddle' : (greatest : Int) * d + power * d = 2 * middle := by
    rw [← add_mul]
    exact_mod_cast hmiddle
  have hlt' : (greatest : Int) * d < power * d := by exact_mod_cast by gcongr
  rcases Nat.lt_or_ge units power with hunder | hover
  · refine iff_of_true hunder ?_
    have hunits' : (units : Int) * d ≤ greatest * d := by
      exact_mod_cast Nat.mul_le_mul_right d (hle hunder)
    rcases habove with hnear | heq | ⟨-, -, hodd⟩
    · have hhalf := two_mul_lt_of_abs_lt hunits' hlt' hnear
      omega
    · exact absurd heq.symm hunder.ne
    · exact absurd hodd (by decide)
  · refine iff_of_false (Nat.not_lt.2 hover) (Nat.not_lt.2 ?_)
    have hunits' : (power : Int) * d ≤ units * d := by
      exact_mod_cast Nat.mul_le_mul_right d hover
    have hhalf := le_two_mul_of_abs_le hlt' hunits' hbelow
    omega

/-! ### Floats -/

/-- The first magnitude that is too great for a finite float, in units. -/
def overflowUnits : Nat := 2 ^ 52 * 2 ^ 2046

theorem Significand.lt_overflowUnits_iff {s k : Nat} (h : Significand s k) :
    s * 2 ^ k < overflowUnits ↔ k < 2046 := by
  rw [overflowUnits, h.lt_two_pow_iff (by decide)]

/-- The last bit of a finite float is that of its significand. -/
theorem toBits_mod_two {x : Float} {negative : Bool} {s k : Nat} (hs : Significand s k)
    (h : parts x = .finite negative (s * 2 ^ k)) : x.toBits.toNat % 2 = s % 2 := by
  obtain ⟨s', k', hs', hunits, -, -, hbits⟩ := exists_significand_of_parts h
  -- a magnitude has one significand
  have hk : k = k' := by rw [← hs.spacing_eq, hunits, hs'.spacing_eq]
  subst hk
  obtain rfl := Nat.eq_of_mul_eq_mul_right (Nat.two_pow_pos k) hunits
  simp only [storedBits] at hbits
  omega

/-- A significand with too many zeros behind it is packed as infinity. -/
theorem pack_of_le {s k : Nat} (h : Significand s k) (hk : 2046 ≤ k) (negative : Bool) :
    pack negative (s * 2 ^ k) = infinity negative := by
  have hlow : 2 ^ 52 ≤ s := h.normal.resolve_right (by omega)
  have hmagnitude : infinityBits ≤ k * 2 ^ storedBits + s := by
    simp only [infinityBits, specialField, storedBits]
    omega
  rw [pack, h.spacing_eq, Nat.mul_div_cancel s (Nat.two_pow_pos k), Nat.min_eq_right hmagnitude,
    infinity]

/-- Numbers are compared as multiples of the smallest distance that there is. -/
theorem abs_div_sub_toRat (n : Nat) {d : Nat} (hd : 0 < d) (negative : Bool) (units : Nat) :
    |(n : ℚ) / d - toRat negative units| =
      |((n * unitsInOne : Nat) : Int) - signed negative units * d| / (d * unitsInOne : Nat) := by
  have hone := unitsInOne_pos
  rw [toRat]
  generalize unitsInOne = one at hone ⊢
  have hsplit : (n : ℚ) / d - signed negative units / one =
      (((n * one : Nat) : Int) - signed negative units * d : Int) / (d * one : Nat) := by
    push_cast
    field_simp
  rw [hsplit, abs_div, Nat.abs_cast, Int.cast_abs]

theorem abs_div_sub_toRat_le_iff (n : Nat) {d : Nat} (hd : 0 < d) {negative negative' : Bool}
    {units units' : Nat} :
    |(n : ℚ) / d - toRat negative units| ≤ |(n : ℚ) / d - toRat negative' units'| ↔
      |((n * unitsInOne : Nat) : Int) - signed negative units * d| ≤
        |((n * unitsInOne : Nat) : Int) - signed negative' units' * d| := by
  have hpos : (0 : ℚ) < (d * unitsInOne : Nat) := by exact_mod_cast Nat.mul_pos hd unitsInOne_pos
  rw [abs_div_sub_toRat n hd, abs_div_sub_toRat n hd, div_le_div_iff_of_pos_right hpos]
  exact_mod_cast Iff.rfl

theorem toRat_inj {negative negative' : Bool} {units units' : Nat} :
    toRat negative units = toRat negative' units' ↔
      signed negative units = signed negative' units' := by
  have hone : (unitsInOne : ℚ) ≠ 0 := by exact_mod_cast unitsInOne_pos.ne'
  rw [toRat, toRat, div_left_inj' hone]
  exact_mod_cast Iff.rfl

/-- The numbers that are nearer to a finite float than to infinity. -/
theorem div_lt_threshold_iff (n : Nat) {d : Nat} (hd : 0 < d) :
    (n : ℚ) / d < 2 ^ 1024 - 2 ^ 970 ↔
      nearestUnits (n * unitsInOne) d < overflowUnits := by
  have hpos : (0 : ℚ) < d := by exact_mod_cast hd
  have hone : (0 : ℚ) < unitsInOne := by exact_mod_cast unitsInOne_pos
  have hpow : ∀ a b c : Nat, a + b = c → (2 : ℚ) ^ c = 2 ^ a * 2 ^ b := by
    rintro a b c rfl
    exact pow_add 2 a b
  have hunits : (unitsInOne : ℚ) = 2 ^ 1074 := by
    rw [unitsInOne, Nat.cast_pow, Nat.cast_ofNat]
  have hcast : ((2 ^ 2044 : Nat) : ℚ) = 2 ^ 970 * unitsInOne := by
    rw [hunits, ← hpow 970 1074 2044 rfl]
    exact Nat.cast_pow 2 2044
  rw [overflowUnits, nearestUnits_lt_iff _ hd 2044, div_lt_iff₀ hpos, hpow 54 970 1024 rfl,
    ← Nat.cast_lt (α := ℚ), Nat.cast_mul, Nat.cast_mul, Nat.cast_mul, hcast]
  generalize (2 : ℚ) ^ 970 = half, (unitsInOne : ℚ) = one at hone ⊢
  have hsplit : ((2 ^ 54 - 1 : Nat) : ℚ) * (half * one) * d = (2 ^ 54 * half - half) * d * one := by
    norm_num
    ring
  rw [hsplit, mul_lt_mul_iff_left₀ hone]

/-- Below the threshold a fraction is rounded to a finite float, the last bit of which is that of
the rounded quotient. -/
theorem exists_parts_ofFraction {n d : Nat}
    (h : nearestUnits (n * unitsInOne) d < overflowUnits) :
    parts (ofFraction false n d) = .finite false (nearestUnits (n * unitsInOne) d) ∧
      (ofFraction false n d).toBits.toNat % 2 = roundQuotient .toEven (n * unitsInOne)
        (d * 2 ^ spacing (n * unitsInOne / d)) % 2 := by
  obtain ⟨s, k, hs, hunits, hmod⟩ := exists_significand_nearestUnits (n * unitsInOne) d
  rw [hunits, hs.lt_overflowUnits_iff] at h
  have hparts : parts (ofFraction false n d) = .finite false (s * 2 ^ k) := by
    rw [ofFraction, hunits, parts_pack hs h]
  refine ⟨by rw [hparts, hunits], ?_⟩
  rw [toBits_mod_two hs hparts, hmod]

/-- From the threshold on, a fraction is rounded to infinity. -/
theorem ofFraction_of_le {n d : Nat}
    (h : overflowUnits ≤ nearestUnits (n * unitsInOne) d) :
    ofFraction false n d = infinity false := by
  obtain ⟨s, k, hs, hunits, -⟩ := exists_significand_nearestUnits (n * unitsInOne) d
  rw [hunits, ← Nat.not_lt, hs.lt_overflowUnits_iff, Nat.not_lt] at h
  rw [ofFraction, hunits, pack_of_le hs h]

/-- No magnitude of either sign is nearer to a quotient than the one to which it is rounded, and one
that is as near leaves an even number. -/
theorem nearestUnits_signed_le (n : Nat) {d s k : Nat} (hd : 0 < d) (h : Significand s k)
    (negative : Bool) :
    |(n : Int) - nearestUnits n d * d| ≤ |(n : Int) - signed negative (s * 2 ^ k) * d| ∧
      (|(n : Int) - nearestUnits n d * d| = |(n : Int) - signed negative (s * 2 ^ k) * d| →
        signed negative (s * 2 ^ k) = nearestUnits n d ∨
          roundQuotient .toEven n (d * 2 ^ spacing (n / d)) % 2 = 0) := by
  have hpositive : ∀ {s k : Nat}, Significand s k →
      |(n : Int) - nearestUnits n d * d| = |(n : Int) - (s * 2 ^ k : Nat) * d| →
        ((s * 2 ^ k : Nat) : Int) = nearestUnits n d ∨
          roundQuotient .toEven n (d * 2 ^ spacing (n / d)) % 2 = 0 := by
    intro s k hs heq
    rcases nearestUnits_lt_or n hd hs with hlt | hunits | ⟨-, heven, -⟩
    · exact absurd heq hlt.ne
    · exact .inl (by rw [hunits])
    · exact .inr heven
  cases negative with
  | false => exact ⟨nearestUnits_le n hd h, hpositive h⟩
  | true =>
    -- a negative number is farther away than zero, and zero is a float
    have hzero : Significand 0 0 := ⟨by decide, .inr rfl⟩
    have hle := nearestUnits_le n hd hzero
    have heven := hpositive hzero
    have hfar : |(n : Int) - signed true (s * 2 ^ k) * d| = n + (s * 2 ^ k : Nat) * d := by
      rw [signed, if_pos rfl, neg_mul, sub_neg_eq_add, abs_of_nonneg (by positivity)]
    have hnear : |(n : Int) - (0 * 2 ^ 0 : Nat) * d| = n := by simp
    rw [hnear] at hle heven
    rw [hfar]
    have hnonneg : 0 ≤ ((s * 2 ^ k : Nat) : Int) * d := by positivity
    refine ⟨by omega, fun heq => ?_⟩
    have hnone : s * 2 ^ k = 0 := by
      have hproduct : ((s * 2 ^ k : Nat) : Int) * d = 0 := by omega
      rcases mul_eq_zero.1 hproduct with hs | hd'
      · exact_mod_cast hs
      · omega
    rw [hnone]
    exact heven (by omega)

theorem isNearest_ofFraction (n : Nat) {d : Nat} (hd : 0 < d) :
    IsNearest ((n : ℚ) / d) (ofFraction false n d) := by
  by_cases hrange : (n : ℚ) / d < 2 ^ 1024 - 2 ^ 970
  · obtain ⟨hparts, hbit⟩ := exists_parts_ofFraction ((div_lt_threshold_iff n hd).1 hrange)
    refine .finite hrange hparts (fun y negative other hy => ?_) fun y negative other hy heq => ?_
    all_goals obtain ⟨s, k, hs, rfl, -⟩ := exists_significand_of_parts hy
    · rw [abs_div_sub_toRat_le_iff n hd]
      exact (nearestUnits_signed_le _ hd hs negative).1
    · rw [toRat_inj, hbit]
      refine (nearestUnits_signed_le _ hd hs negative).2 ?_
      have hle := heq.le
      have hge := heq.ge
      rw [abs_div_sub_toRat_le_iff n hd] at hle hge
      exact le_antisymm hle hge
  · rw [ofFraction_of_le (Nat.le_of_not_lt ((div_lt_threshold_iff n hd).not.1 hrange))]
    exact .infinite (le_of_not_gt hrange)

/-- The nearest float is the one to which a fraction is rounded, and there is no other one. -/
theorem isNearest_iff (n : Nat) {d : Nat} (hd : 0 < d) {x : Float} :
    IsNearest ((n : ℚ) / d) x ↔ x = ofFraction false n d := by
  refine ⟨fun h => ?_, fun h => h ▸ isNearest_ofFraction n hd⟩
  cases h with
  | infinite hrange =>
    have hge := (div_lt_threshold_iff n hd).not.1 (not_lt.2 hrange)
    exact (ofFraction_of_le (Nat.le_of_not_lt hge)).symm
  | @finite _ units hrange hx hnearest heven =>
    obtain ⟨hparts, -⟩ := exists_parts_ofFraction ((div_lt_threshold_iff n hd).1 hrange)
    obtain ⟨s, k, hs, rfl, -⟩ := exists_significand_of_parts hx
    have hle := (abs_div_sub_toRat_le_iff n hd).1 (hnearest _ _ _ hparts)
    suffices hunits : s * 2 ^ k = nearestUnits (n * unitsInOne) d by
      rw [← pack_of_parts hx, ← pack_of_parts hparts, hunits]
    rcases nearestUnits_lt_or (n * unitsInOne) hd hs with hlt | heq | ⟨heq, -, hodd⟩
    · exact absurd hle (not_le.2 hlt)
    · exact heq
    · -- of two floats that are as near, the other one has an even significand
      have hdistance : |(n : ℚ) / d - toRat false (s * 2 ^ k)| =
          |(n : ℚ) / d - toRat false (nearestUnits (n * unitsInOne) d)| :=
        le_antisymm (hnearest _ _ _ hparts) ((abs_div_sub_toRat_le_iff n hd).2 heq.le)
      rcases heven _ _ _ hparts hdistance with hvalue | hbit
      · exact Int.ofNat_inj.1 (toRat_inj.1 hvalue).symm
      · rw [toBits_mod_two hs hx, hodd] at hbit
        cases hbit

end Reckoner.Binary64
