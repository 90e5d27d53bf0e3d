import Reckoner.Proofs.Arguments
import Reckoner.Proofs.Literals
import Reckoner.Proofs.Printing
import Reckoner.Proofs.Sessions
import Reckoner.Proofs.Truncation

/-!
# Values that are printed can be entered again

Zero and the numbers from a ten-thousandth up to, but not including, `10 ^ 16` are written without
an exponent: as digits around a point, with a minus sign in front if need be. The digits are a
numeral, which is read as the magnitude. The sign is none of a numeral, but an operator, and takes
the magnitude to the other sign bit, also if it is zero. So the text of a value is an expression
with this very value.

## Main results

* `Binary64.neg_of_parts`: what a minus sign does to a float;
* `atLeastPower_iff`: the layout compares a magnitude with the power of ten itself;
* `Number.isPlain_iff`: which numbers are written without an exponent;
* `valueOf_text`: the text of such a number has the number for its value;
* `printed_value_reenters`: what is printed for an expression is printed again when it is entered.
-/

namespace Reckoner

namespace Binary64

open Float.Model

/-- A sign bit has only one other value, which stands for the other sign. -/
theorem ofBitVec_eq_neg {b c : BitVec 1} (h : b ≠ c) :
    UnpackedFloat.Sign.ofBitVec b = -UnpackedFloat.Sign.ofBitVec c := by
  rcases BitVec.eq_zero_or_eq_one b with rfl | rfl
  · rcases BitVec.eq_zero_or_eq_one c with rfl | rfl
    · exact absurd rfl h
    · rfl
  · rcases BitVec.eq_zero_or_eq_one c with rfl | rfl
    · rfl
    · exact absurd rfl h

/-- Bits that differ in the sign only are unpacked to numbers that differ in the sign only. -/
theorem unpack_eq_neg {x y : Float}
    (hbelow : y.toBits.toNat % 2 ^ (63 : Nat) = x.toBits.toNat % 2 ^ (63 : Nat))
    (hsign : y.toBits.toNat / 2 ^ (63 : Nat) ≠ x.toBits.toNat / 2 ^ (63 : Nat)) :
    y.toModel.unpack = x.toModel.unpack.neg := by
  have hexponent : @UnpackedFloat.unpackExponent Format.binary64 y.toModel.toBits.toBitVec =
      @UnpackedFloat.unpackExponent Format.binary64 x.toModel.toBits.toBitVec := by
    rw [← BitVec.toNat_inj, toNat_unpackExponent, toNat_unpackExponent, hbelow]
  have hmantissa : @UnpackedFloat.unpackMantissa Format.binary64 y.toModel.toBits.toBitVec =
      @UnpackedFloat.unpackMantissa Format.binary64 x.toModel.toBits.toBitVec := by
    rw [← BitVec.toNat_inj, toNat_unpackMantissa, toNat_unpackMantissa]
    simp only [storedBits]
    omega
  have hflip : UnpackedFloat.Sign.ofBitVec
        (@UnpackedFloat.unpackSign Format.binary64 y.toModel.toBits.toBitVec) =
      -UnpackedFloat.Sign.ofBitVec
        (@UnpackedFloat.unpackSign Format.binary64 x.toModel.toBits.toBitVec) := by
    apply ofBitVec_eq_neg
    rwa [ne_eq, ← BitVec.toNat_inj, toNat_unpackSign, toNat_unpackSign]
  -- the form of a number is told by the two fields that both share
  unfold Float.Model.unpack UnpackedFloat.unpack
  simp only [hexponent, hmantissa, hflip]
  split_ifs <;> rfl

/-- A finite number with a minus sign in front of it has the other sign. -/
theorem neg_of_parts {x : Float} {negative : Bool} {units : Nat}
    (h : parts x = .finite negative units) : -x = pack (!negative) units := by
  obtain ⟨s, k, hs, rfl, hk, hsign, hbelow⟩ := exists_significand_of_parts h
  obtain ⟨s', k', hs', hunits, -, hsign', hbelow'⟩ :=
    exists_significand_of_parts (parts_pack hs hk !negative)
  have hexponent : k' = k := by rw [← hs'.spacing_eq, ← hunits, hs.spacing_eq]
  subst hexponent
  obtain rfl : s = s' := Nat.eq_of_mul_eq_mul_right (Nat.two_pow_pos _) hunits
  generalize pack (!negative) _ = y at *
  -- the bits below the sign are the same, and the sign bits are not
  have hlt : x.toBits.toNat < 2 ^ 64 := x.toBits.toNat_lt
  have hlt' : y.toBits.toNat < 2 ^ 64 := y.toBits.toNat_lt
  have hunpack : y.toModel.unpack = x.toModel.unpack.neg := by
    refine unpack_eq_neg (hbelow'.trans hbelow.symm) fun heq => ?_
    have hsame : 2 ^ (63 : Nat) ≤ x.toBits.toNat ↔ 2 ^ (63 : Nat) ≤ y.toBits.toNat := by omega
    rw [decide_eq_decide.2 hsame, ← hsign'] at hsign
    exact absurd hsign (by simp)
  show Float.ofModel (Float.Model.pack x.toModel.unpack.neg) = y
  rw [← hunpack]
  exact ofBits_toBits y

theorem abs_toRat (negative : Bool) (units : Nat) :
    |toRat negative units| = units / unitsInOne := by
  have hone : (0 : ℚ) < unitsInOne := by exact_mod_cast unitsInOne_pos
  have hsigned : |(signed negative units : ℚ)| = units := by
    unfold signed
    split <;> simp
  rw [toRat, abs_div, abs_of_pos hone, hsigned]

end Binary64

/-- A magnitude is compared with the power of ten itself, though in whole numbers. -/
theorem atLeastPower_iff (exponent : Int) (units : Nat) :
    atLeastPower exponent units ↔ (10 : ℚ) ^ exponent ≤ units / Binary64.unitsInOne := by
  have hone : (0 : ℚ) < Binary64.unitsInOne := by exact_mod_cast Binary64.unitsInOne_pos
  -- one of these two powers is one, as either the exponent or its negation is cut off at zero
  have hpower : (10 : ℚ) ^ exponent = 10 ^ exponent.toNat / 10 ^ (-exponent).toNat := by
    have hdifference : exponent = (exponent.toNat : Int) - ((-exponent).toNat : Int) := by omega
    rw [← zpow_natCast, ← zpow_natCast, ← zpow_sub₀ (by norm_num), ← hdifference]
  unfold atLeastPower Decimal.scaled
  rw [decide_eq_true_iff, hpower, div_le_div_iff₀ (by positivity) hone,
    mul_comm Binary64.unitsInOne]
  exact_mod_cast Iff.rfl

namespace Number

open Binary64

/-- The numbers that are written without an exponent. -/
theorem isPlain_iff {negative : Bool} {units : Nat} : layout.isPlain units ↔
    toRat negative units = 0 ∨
      1 / 10 ^ 4 ≤ |toRat negative units| ∧ |toRat negative units| < 10 ^ 16 := by
  have hone : (unitsInOne : ℚ) ≠ 0 := by exact_mod_cast unitsInOne_pos.ne'
  have hzero : (units : ℚ) / unitsInOne = 0 ↔ units = 0 := by
    rw [div_eq_zero_iff, or_iff_left hone]
    exact Nat.cast_eq_zero
  have hlow : (10 : ℚ) ^ (-4 : Int) = 1 / 10 ^ 4 := by norm_num
  have hhigh : (10 : ℚ) ^ (16 : Int) = 10 ^ 16 := rfl
  have hplain : layout.isPlain units =
      (units == 0 || (atLeastPower (-4) units && !atLeastPower 16 units)) := rfl
  rw [hplain, Bool.or_eq_true, Bool.and_eq_true, Bool.not_eq_true', ← Bool.not_eq_true, beq_iff_eq,
    atLeastPower_iff, atLeastPower_iff, hlow, hhigh, not_le, ← abs_eq_zero, abs_toRat, hzero]

/-- Such a number is written as a numeral, up to its sign. -/
theorem spells_magnitude {units : Nat} (h : layout.isPlain units) :
    Spells .number (layout.magnitude units) := by
  obtain ⟨hne, hdigits⟩ := @Layout.written_spec layout (by decide) (layout.decimal units)
  unfold Layout.magnitude
  rw [if_pos h]
  exact spells_positional hne hdigits _

end Number

/-! ### One number -/

variable {text : String} {x : Float} {negative : Bool} {units : Nat}

/-- The characters of a magnitude are the text of the number that has it and no sign. -/
theorem exists_text_magnitude (h : Binary64.parts x = .finite negative units) :
    ∃ y, Binary64.parts y = .finite false units ∧
      Number.text y = String.ofList (Number.layout.magnitude units) := by
  obtain ⟨s, k, hs, rfl, hk, -⟩ := Binary64.exists_significand_of_parts h
  have hparts := Binary64.parts_pack hs hk false
  refine ⟨_, hparts, ?_⟩
  rw [← String.toList_inj, String.toList_ofList, Number.toList_text hparts]
  rfl

/-- A text that is a token of a number, behind one of a minus sign, has the value of this token with
the other sign. -/
theorem valueOf_of_minus_number {op t : Token} {length : Nat}
    (hs : Stream.ofText text = ⟨[op, t], .endOfInput length⟩) (hop : op.kind = .operator .minus)
    (hkind : t.kind = .number) (hvalue : (Expr.literal t).value = .ok x) :
    valueOf text = .ok (-x) := by
  have hatom : Derives .atom [t] (.literal t) 0 := .literal (.inl hkind)
  refine valueOf_of_factor hs (.sign hop (by decide) (.unsigned (.base hatom))) (by decide)
    (show 1 ≤ depthLimit by decide) ?_
  rw [Expr.value, hvalue]
  show op.unaryValue x = _
  unfold Token.unaryValue
  rw [hop]
  rfl

/-- The text of a number that is written without an exponent has this number for its value. -/
theorem valueOf_text (h : Binary64.parts x = .finite negative units)
    (hplain : Number.layout.isPlain units) : valueOf (Number.text x) = .ok x := by
  obtain ⟨y, hy, htext⟩ := exists_text_magnitude h
  have hspells := Number.spells_magnitude hplain
  have hcanonical : CanonicalText .number (Number.layout.magnitude units) (Number.text y) :=
    ⟨y, by rw [← htext, Number.read?_text], rfl⟩
  have hstart : Stream.ofText (Number.text x) = Stream.scanFrom []
      ⟨0, Layout.sign negative ++ Number.layout.magnitude units⟩ := by
    rw [← Number.toList_text h]
    rfl
  have hpack := Binary64.pack_of_parts h
  cases negative with
  | false =>
    -- the numeral is the whole text, and the number without a sign is the number itself
    obtain rfl : y = x := by rw [← Binary64.pack_of_parts hy, hpack]
    have hs := Stream.scanFrom_lexeme hspells hcanonical 0
    exact valueOf_of_number (hstart.trans hs) rfl (Token.value_literal rfl)
  | true =>
    -- the sign is a token of its own, and takes the number without a sign to the number
    have hneg : -y = x := by rw [Binary64.neg_of_parts hy, ← hpack]; rfl
    have hs := @Stream.scanFrom_lexeme_append (.operator .minus) [] ['-']
      (Number.layout.magnitude units) "-" nofun (.operator .minus) rfl
      (apart_minus.seam_concat [] _) 0
    rw [Stream.scanFrom_lexeme hspells hcanonical] at hs
    have hresult := valueOf_of_minus_number (hstart.trans hs) rfl rfl
      (Token.value_literal rfl)
    rwa [hneg] at hresult

/-! ### What is printed -/

/-- Nothing is reported about a line with a value. -/
theorem complaint?_of_valueOf_eq_ok (h : valueOf text = .ok x) : complaint? text = none := by
  unfold complaint?
  rw [h]
  exact ite_self none

/-- A session writes the value of a line and goes on. -/
theorem Session.run_cons_of_valueOf_eq_ok (session : Session) (h : valueOf text = .ok x)
    (ls : List (List UInt8)) :
    session.run (utf8 text :: ls) =
      (session.run ls).after (session.prompt ++ Command.line (Number.text x)) [] := by
  have hnone := complaint?_of_valueOf_eq_ok h
  have hecho : echo text = Command.line (Number.text x) := by
    unfold echo
    rw [h]
    rfl
  rw [run_cons_utf8 (.inr hnone), hecho, reports, hnone]
  rfl

theorem Command.run_eval_of_valueOf_eq_ok (h : valueOf text = .ok x) (input : List UInt8) :
    (eval text).run input = .ofOutput (line (Number.text x)) := by
  rw [run, h]

/-- A value that is printed can be entered again. If the value of a text is zero, of either sign, or
between a ten-thousandth and `10 ^ 16`, then the text that is printed for it has the same value, bit
by bit. For both texts the same is printed: by the command for one expression, with or without the
program around it, and by any session, behind its prompt. -/
theorem printed_value_reenters (h : valueOf text = .ok x)
    (hparts : Binary64.parts x = .finite negative units)
    (hrange : Binary64.toRat negative units = 0 ∨
      1 / 10 ^ 4 ≤ |Binary64.toRat negative units| ∧ |Binary64.toRat negative units| < 10 ^ 16) :
    let printed := Number.text x
    valueOf printed = .ok x ∧
      (∀ e ∈ [text, printed], ∀ input,
        (Command.eval e).run input = .ofOutput (Command.line printed) ∧
        run ["eval", "--", e] input = .ofOutput (Command.line printed)) ∧
      ∀ (session : Session) (ls : List (List UInt8)),
        session.run (utf8 text :: utf8 printed :: ls) =
          (session.run ls).after
            (session.prompt ++ Command.line printed ++ (session.prompt ++ Command.line printed))
            [] := by
  intro printed
  have hprinted : valueOf printed = .ok x := valueOf_text hparts (Number.isPlain_iff.2 hrange)
  -- what is printed for a text depends on its value only, which is the same for both
  refine ⟨hprinted, fun e he input => ?_, fun session ls => ?_⟩
  · have hvalue : valueOf e = .ok x := by
      rcases List.mem_pair.1 he with rfl | rfl
      · exact h
      · exact hprinted
    have heval := Command.run_eval_of_valueOf_eq_ok hvalue input
    exact ⟨heval, heval⟩
  · rw [session.run_cons_of_valueOf_eq_ok h, session.run_cons_of_valueOf_eq_ok hprinted,
      Outcome.after_after]
    rfl

/-- The negative zero is printed with its sign, which is not lost when it is entered. -/
theorem printed_value_reenters_negative_zero :
    let x : Float := -0
    valueOf "2 * -0" = .ok x ∧ Binary64.parts x = .finite true 0 ∧ Binary64.toRat true 0 = 0 ∧
      Number.text x = "-0.0" ∧ valueOf "-0.0" = .ok x ∧
      run ["eval", "--", "-0.0"] [] = .ofOutput "-0.0\n" := by
  intro x
  have hvalue : valueOf "2 * -0" = .ok x := by decide +kernel
  have hparts : Binary64.parts x = .finite true 0 := by decide +kernel
  have hzero : Binary64.toRat true 0 = 0 := zero_div _
  have htext : Number.text x = "-0.0" := by decide +kernel
  obtain ⟨hprinted, houtput, -⟩ := printed_value_reenters hvalue hparts (.inl hzero)
  rw [htext] at hprinted houtput
  exact ⟨hvalue, hparts, hzero, htext, hprinted, (houtput _ (.tail _ (.head _)) []).2⟩

end Reckoner
