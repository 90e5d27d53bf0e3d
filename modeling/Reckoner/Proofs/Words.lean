import Reckoner.Number
import Reckoner.Proofs.Units

/-!
# Words as floats

The words of 32 bits are floats without loss: cutting down the float that a word is gives the word
back. Cutting down any float is stated here on whole numbers, as a truncation that is held within
the bounds of the words.

## Main definitions

* `Number.truncated x`: the whole number to which a float is cut down.

## Main results

* `Number.toInt_toWord`: the word of a float is the number to which it is cut down;
* `Number.parts_ofWord`: the float of a word has exactly its value;
* `Number.toWord_ofWord`: a word comes back from its float.
-/

namespace Reckoner

namespace Binary64

/-- A magnitude with its sign. -/
def signed (negative : Bool) (units : Nat) : Int :=
  if negative then -(units : Int) else units

/-- A whole number of no more than 53 bits is a float, and its significand says which. -/
theorem exists_significand_of_lt {n : Nat} (h : n < 2 ^ 53) :
    ∃ s k, Significand s k ∧ n * unitsInOne = s * 2 ^ k ∧ k < 2046 := by
  by_cases hzero : n = 0
  · exact ⟨0, 0, ⟨by decide, .inr rfl⟩, by rw [hzero, Nat.zero_mul, Nat.zero_mul], by decide⟩
  -- the number is moved to the left until its leading bit is the first of the significand
  · have hlog : n.log2 < 53 := (Nat.log2_lt hzero).2 h
    have hlow := Nat.log2_self_le hzero
    have hhigh : n < 2 ^ (n.log2 + 1) := Nat.lt_log2_self
    refine ⟨n * 2 ^ (52 - n.log2), 1022 + n.log2, ⟨?_, .inl ?_⟩, ?_, by omega⟩
    · calc n * 2 ^ (52 - n.log2) < 2 ^ (n.log2 + 1) * 2 ^ (52 - n.log2) := by gcongr
        _ = 2 ^ 53 := by rw [← Nat.pow_add]; congr 1; omega
    · calc 2 ^ 52 = 2 ^ n.log2 * 2 ^ (52 - n.log2) := by rw [← Nat.pow_add]; congr 1; omega
        _ ≤ n * 2 ^ (52 - n.log2) := by gcongr
    · have hexponent : 52 - n.log2 + (1022 + n.log2) = 1074 := by omega
      rw [Nat.mul_assoc, ← Nat.pow_add, hexponent, unitsInOne]

end Binary64

namespace Number

open Binary64

/-- The least word. -/
def leastWord : Int := -2 ^ 31

/-- The greatest word. -/
def greatestWord : Int := 2 ^ 31 - 1

/-- The whole number to which a float is cut down: its value without the part behind the point,
held within the bounds of the words. What is not a number counts as zero. -/
def truncated (x : Float) : Int :=
  match parts x with
  | .nan => 0
  | .infinite negative => if negative then leastWord else greatestWord
  | .finite negative units =>
    max leastWord (min greatestWord ((signed negative units).tdiv unitsInOne))

/-- The word of a float is the number to which the float is cut down. -/
theorem toInt_toWord (x : Float) : (toWord x).toInt = truncated x := by
  rw [toWord, truncated]
  cases parts x with
  | nan => rfl
  | infinite negative => cases negative <;> rfl
  | finite negative units =>
    cases negative with
    | false =>
      have hcut : (signed false units).tdiv unitsInOne = ((units / unitsInOne : Nat) : Int) :=
        Int.ofNat_tdiv ..
      dsimp only
      rw [hcut, leastWord, greatestWord]
      generalize units / unitsInOne = whole
      rw [Int32.toInt_ofInt_of_le (by omega) (by omega)]
      omega
    | true =>
      have hcut : (signed true units).tdiv unitsInOne = -((units / unitsInOne : Nat) : Int) :=
        (Int.neg_tdiv ..).trans (congrArg Neg.neg (Int.ofNat_tdiv ..))
      dsimp only
      rw [hcut, leastWord, greatestWord]
      generalize units / unitsInOne = whole
      rw [Int32.toInt_ofInt_of_le (by omega) (by omega)]
      omega

/-- The float of a word has exactly the value of the word. -/
theorem parts_ofWord (word : Int32) :
    parts (ofWord word) =
      .finite (decide (word.toInt < 0)) (word.toInt.natAbs * unitsInOne) := by
  have hlow := Int32.le_toInt word
  have hhigh := Int32.toInt_lt word
  have hlt : word.toInt.natAbs < 2 ^ 53 := by omega
  obtain ⟨s, k, hs, hunits, hk⟩ := exists_significand_of_lt hlt
  have hnearest : nearestUnits (s * 2 ^ k * 1) 1 = s * 2 ^ k :=
    nearestUnits_of_significand hs Nat.one_pos
  rw [Nat.mul_one] at hnearest
  rw [ofWord, ofFraction, hunits, hnearest, parts_pack hs hk]

/-- A word comes back from its float. -/
theorem toWord_ofWord (word : Int32) : toWord (ofWord word) = word := by
  have hlow := Int32.le_toInt word
  have hhigh := Int32.toInt_lt word
  have hone := unitsInOne_pos
  refine Int32.toInt_inj.1 ?_
  rw [toInt_toWord, truncated, parts_ofWord]
  have hsigned : signed (decide (word.toInt < 0)) (word.toInt.natAbs * unitsInOne) =
      word.toInt * unitsInOne := by
    rw [signed]
    split
    next hneg =>
      rw [decide_eq_true_iff] at hneg
      rw [Nat.cast_mul, ← Int.neg_mul]
      congr 1
      omega
    next hneg =>
      rw [decide_eq_true_iff] at hneg
      rw [Nat.cast_mul]
      congr 1
      omega
  dsimp only
  rw [hsigned, Int.mul_tdiv_cancel _ (by omega), leastWord, greatestWord]
  omega

end Number

end Reckoner
