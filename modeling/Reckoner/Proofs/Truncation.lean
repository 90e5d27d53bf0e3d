import Reckoner.Proofs.Words

/-!
# Floats that are cut down to zero

The word of a float is zero exactly if the float lies between minus one and one, or is not a number.
"Between" is meant in the order on floats, which takes its operands apart by itself. What it finds
there is compared with the parts that all exact computations go by.

## Main definitions

* `Binary64.Unpacked`: a float as the order takes it apart, beside its parts.

## Main results

* `Binary64.unpacked`: both look at the same fields of the bits;
* `Number.between_iff`: a float between minus one and one has fewer units than the number one;
* `Number.toWord_eq_zero_iff`: the floats that are cut down to zero.
-/

namespace Reckoner

namespace Binary64

open Float.Model

/-- A float as the order on floats takes it apart, and as its parts say. -/
inductive Unpacked : UnpackedFloat → Parts → Prop
  /-- Not a number. -/
  | nan : Unpacked .notANumber .nan
  /-- An infinity. -/
  | infinite (sign : UnpackedFloat.Sign) (negative : Bool) :
      Unpacked (.infinity sign) (.infinite negative)
  /-- A zero of either sign. -/
  | zero (sign : UnpackedFloat.Sign) (negative : Bool) :
      Unpacked (.zero sign) (.finite negative 0)
  /-- Any other number, by its significand and the zeros behind it. -/
  | finite (sign : UnpackedFloat.Sign) (negative : Bool) {s k units : Nat} {e : Int} (hpos : 0 < s)
      (hs : Significand s k) (he : e = k - 1074) (hunits : units = s * 2 ^ k) :
      Unpacked (.finite sign s e hpos) (.finite negative units)

/-- The field of the exponent stands below the sign. -/
theorem toNat_unpackExponent (x : Float) :
    (@UnpackedFloat.unpackExponent Format.binary64 x.toModel.toBits.toBitVec).toNat =
      x.toBits.toNat % 2 ^ (63 : Nat) / 2 ^ storedBits := by
  rw [UnpackedFloat.unpackExponent_def, BitVec.extractLsb'_toNat, Nat.shiftRight_eq_div_pow]
  change x.toBits.toNat / 2 ^ 52 % 2 ^ 11 = _
  simp only [storedBits]
  omega

/-- The field of the fraction stands lowest. -/
theorem toNat_unpackMantissa (x : Float) :
    (@UnpackedFloat.unpackMantissa Format.binary64 x.toModel.toBits.toBitVec).toNat =
      x.toBits.toNat % 2 ^ storedBits := by
  rw [UnpackedFloat.unpackMantissa_def, BitVec.extractLsb'_toNat, Nat.shiftRight_zero]
  rfl

/-- The sign stands on top. -/
theorem toNat_unpackSign (x : Float) :
    (@UnpackedFloat.unpackSign Format.binary64 x.toModel.toBits.toBitVec).toNat =
      x.toBits.toNat / 2 ^ (63 : Nat) := by
  have hlt : x.toBits.toNat < 2 ^ 64 := x.toBits.toNat_lt
  rw [UnpackedFloat.unpackSign_def, BitVec.extractLsb'_toNat, Nat.shiftRight_eq_div_pow]
  show x.toBits.toNat / 2 ^ 63 % 2 ^ 1 = _
  omega

/-- Both ways to take a float apart look at the same fields of its bits. -/
theorem unpacked (x : Float) : Unpacked x.toModel.unpack (parts x) := by
  let field : BitVec 11 := @UnpackedFloat.unpackExponent Format.binary64 x.toModel.toBits.toBitVec
  let fraction : BitVec 52 :=
    @UnpackedFloat.unpackMantissa Format.binary64 x.toModel.toBits.toBitVec
  have hfield : field.toNat = x.toBits.toNat % 2 ^ (63 : Nat) / 2 ^ storedBits :=
    toNat_unpackExponent x
  have hfraction : fraction.toNat = x.toBits.toNat % 2 ^ storedBits := toNat_unpackMantissa x
  have hlt : fraction.toNat < 2 ^ storedBits := fraction.isLt
  -- the tests on bits are tests on the numbers that the fields are
  have hspecial : field = -1#11 ↔ field.toNat = specialField := BitVec.toNat_eq
  have hzero : field = 0#11 ↔ field.toNat = 0 := BitVec.toNat_eq
  have hnone : fraction = 0#52 ↔ fraction.toNat = 0 := BitVec.toNat_eq
  have hleading : (1#1 ++ fraction).toNat = 2 ^ storedBits + fraction.toNat := by
    rw [BitVec.toNat_append, ← Nat.shiftLeft_add_eq_or_of_lt fraction.isLt]
    rfl
  unfold Float.Model.unpack UnpackedFloat.unpack parts
  simp only [← hfield, ← hfraction]
  change Unpacked (if field = -1#11 then if fraction = 0#52 then _ else _ else
    if field = 0#11 then if h : fraction = 0#52 then _ else _ else _) _
  simp only [hspecial, hzero, hnone]
  simp only [storedBits] at hlt hleading ⊢
  split_ifs with hinfinite hnan hsubnormal hvanishes
  · exact .infinite _ _
  · exact .nan
  · rw [hvanishes]
    exact .zero _ _
  · refine .finite _ _ _ ⟨?_, .inr rfl⟩ ?_ (Nat.mul_one _).symm
    · change fraction.toNat < _
      omega
    · change (field.toNat : Int) - (1023 + 52) + 1 = _
      omega
  · refine .finite _ _ _ (k := field.toNat - 1) ⟨?_, .inl ?_⟩ ?_ ?_
    · change (1#1 ++ fraction).toNat < _
      omega
    · change _ ≤ (1#1 ++ fraction).toNat
      omega
    · change (field.toNat : Int) - (1023 + 52) = _
      omega
    · change _ = (1#1 ++ fraction).toNat * _
      rw [hleading]

/-- How many zeros behind a significand keep a magnitude below that of one. -/
theorem Significand.lt_unitsInOne_iff {s k : Nat} (h : Significand s k) :
    s * 2 ^ k < unitsInOne ↔ k < 1022 := by
  have hsplit : unitsInOne = 2 ^ 52 * 2 ^ 1022 := by rw [← Nat.pow_add, unitsInOne]
  rw [hsplit, h.lt_two_pow_iff (by decide)]

end Binary64

namespace Number

open Binary64 Float.Model

/-- The test for what is not a number looks at the parts. -/
theorem isNaN_iff (x : Float) : x.isNaN = true ↔ parts x = .nan := by
  have hunpacked := unpacked x
  change x.toModel.unpack.isNaN = true ↔ _
  generalize x.toModel.unpack = u, parts x = p at hunpacked
  cases hunpacked <;> simp [UnpackedFloat.isNaN]

/-- The order on floats puts those between minus one and one that have fewer units than one. -/
theorem between_iff (x : Float) :
    (-1 < x ∧ x < 1) ↔ ∃ negative units, parts x = .finite negative units ∧ units < unitsInOne := by
  have hlt : ∀ y z : Float, y < z ↔ y.toModel.unpack.lt z.toModel.unpack = true :=
    fun y z => decide_eq_true_iff
  have hone : (1 : Float).toModel.unpack = .finite .positive (2 ^ 52) (-52) (by decide) := rfl
  have hminus : (-1 : Float).toModel.unpack = .finite .negative (2 ^ 52) (-52) (by decide) := rfl
  have hunpacked := unpacked x
  rw [hlt, hlt, hone, hminus]
  generalize x.toModel.unpack = u, parts x = p at hunpacked
  cases hunpacked with
  | nan => simp [UnpackedFloat.lt, UnpackedFloat.compare]
  | infinite sign negative => cases sign <;> simp [UnpackedFloat.lt, UnpackedFloat.compare]
  | zero sign negative => simp [UnpackedFloat.lt, UnpackedFloat.compare, unitsInOne_pos]
  | @finite sign negative s k units e hpos hs he hunits =>
    have hbelow : units < unitsInOne ↔ e < -52 ∨ e = -52 ∧ s < 2 ^ 52 := by
      have hnormal := hs.normal
      rw [hunits, hs.lt_unitsInOne_iff]
      omega
    cases sign with
    | positive =>
      simp [UnpackedFloat.lt, UnpackedFloat.compare, Ordering.then_eq_lt, compare_lt_iff_lt, hbelow]
    | negative =>
      simp [UnpackedFloat.lt, UnpackedFloat.compare, Ordering.then_eq_gt, compare_gt_iff_gt, hbelow]
      omega

/-- The floats that are cut down to zero are those between minus one and one, and what is not a
number. -/
theorem toWord_eq_zero_iff (x : Float) : toWord x = 0 ↔ x.isNaN = true ∨ (-1 < x ∧ x < 1) := by
  rw [isNaN_iff, between_iff, ← Int32.toInt_inj, toInt_toWord, truncated]
  cases parts x with
  | nan => simp
  | infinite negative => cases negative <;> simp [leastWord, greatestWord]
  | finite negative units =>
    have hquotient : units < unitsInOne ↔ units / unitsInOne = 0 :=
      (Nat.div_eq_zero_iff_lt unitsInOne_pos).symm
    have hcut : ((signed negative units).tdiv unitsInOne).natAbs = units / unitsInOne := by
      rw [Int.natAbs_tdiv, Int.natAbs_natCast, signed]
      split
      · rw [Int.natAbs_neg, Int.natAbs_natCast]
        rfl
      · rw [Int.natAbs_natCast]
        rfl
    have hexists : (∃ negative' units', Parts.finite negative units = .finite negative' units' ∧
        units' < unitsInOne) ↔ units < unitsInOne := by
      refine ⟨?_, fun hlt => ⟨_, _, rfl, hlt⟩⟩
      rintro ⟨_, _, heq, hlt⟩
      exact (Parts.finite.inj heq).2 ▸ hlt
    simp only [reduceCtorEq, false_or]
    -- holding a quotient within the bounds of the words makes no other one zero
    rw [hexists, hquotient, ← hcut, Int32.toInt_zero, leastWord, greatestWord]
    generalize (signed negative units).tdiv unitsInOne = whole
    omega

end Number

end Reckoner
