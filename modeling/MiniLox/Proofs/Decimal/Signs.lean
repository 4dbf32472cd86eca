import MiniLox.Decimal.Notation
import MiniLox.Proofs.Decimal.Rounding

/-!
The sign and the magnitude of a machine number. Up to infinity the code is the
magnitude: negation changes the sign and leaves the code, the absolute value
drops the sign, and without signs numbers are ordered as their codes are.
-/

namespace MiniLox.Binary64

open Float.Model UnpackedFloat

variable {x y : Float} {s : Sign} {code : Nat}

/-- The bits of a magnitude with a sign. -/
def withSign (s : Sign) (code : Nat) : Nat :=
  match s with
  | .negative => signBit + code
  | .positive => code

/-- The number of a sign and a magnitude, taken apart into mantissa and exponent. -/
def apart (s : Sign) (code : Nat) : UnpackedFloat :=
  if code = infinity then .infinity s
  else if h : code = 0 then .zero s
  else if code < stretch then .finite s code (-1074) (Nat.pos_of_ne_zero h)
  else .finite s (stretch + code % stretch) ((code / stretch : Nat) - 1075)
    (Nat.lt_of_lt_of_le (by decide) (Nat.le_add_right stretch _))

theorem unpackExponent_toNat (b : BitVec 64) :
    (@unpackExponent Format.binary64 b).toNat = b.toNat / 4503599627370496 % 2048 := by
  simp [unpackExponent, Nat.shiftRight_eq_div_pow]

theorem unpackMantissa_toNat (b : BitVec 64) :
    (@unpackMantissa Format.binary64 b).toNat = b.toNat % 4503599627370496 := by
  simp [unpackMantissa]

theorem unpackSign_toNat (b : BitVec 64) :
    (@unpackSign Format.binary64 b).toNat = b.toNat / 9223372036854775808 := by
  have hb := b.isLt
  simp [unpackSign, Nat.shiftRight_eq_div_pow]
  omega

theorem withSign_lt (h : code ≤ infinity) : withSign s code < 2 ^ 64 := by
  simp only [infinity] at h
  cases s <;> simp only [withSign, signBit] <;> omega

theorem toNat_withSign (h : code ≤ infinity) :
    (BitVec.ofNat 64 (withSign s code)).toNat = withSign s code := by
  rw [BitVec.toNat_ofNat, Nat.mod_eq_of_lt (withSign_lt h)]

section Fields

variable (s) (h : code ≤ infinity)

include h

theorem exponent_withSign :
    (@unpackExponent Format.binary64 (BitVec.ofNat 64 (withSign s code))).toNat =
      code / 4503599627370496 := by
  simp only [infinity] at h
  rw [unpackExponent_toNat, toNat_withSign h]
  cases s <;> simp only [withSign, signBit] <;> omega

theorem mantissa_withSign :
    (@unpackMantissa Format.binary64 (BitVec.ofNat 64 (withSign s code))).toNat =
      code % 4503599627370496 := by
  rw [unpackMantissa_toNat, toNat_withSign h]
  cases s
  · simp only [withSign, signBit]
    omega
  · rfl

theorem sign_withSign :
    Sign.ofBitVec (@unpackSign Format.binary64 (BitVec.ofNat 64 (withSign s code))) = s := by
  have hsign := unpackSign_toNat (BitVec.ofNat 64 (withSign s code))
  rw [toNat_withSign h] at hsign
  simp only [infinity] at h
  cases s with
  | negative =>
      have hone : withSign .negative code / 9223372036854775808 = 1 := by
        simp only [withSign, signBit]
        omega
      refine if_neg fun hzero => ?_
      rw [hzero, hone] at hsign
      contradiction
  | positive =>
      have hzero : withSign .positive code / 9223372036854775808 = 0 := by
        simp only [withSign]
        omega
      refine if_pos (BitVec.eq_of_toNat_eq ?_)
      rw [hsign, hzero]
      rfl

/-- The bits of a magnitude with a sign are taken apart into the two. -/
theorem unpack_withSign :
    UnpackedFloat.unpack Format.binary64 (BitVec.ofNat 64 (withSign s code)) = apart s code := by
  have hexponent := exponent_withSign s h
  have hmantissa := mantissa_withSign s h
  have hsign := sign_withSign s h
  have hlast : (@unpackExponent Format.binary64 (BitVec.ofNat 64 (withSign s code)) =
      -1#(Format.binary64.exponentBits)) ↔ code / 4503599627370496 = 2047 := by
    rw [← BitVec.toNat_inj, hexponent]
    rfl
  have hfirst : (@unpackExponent Format.binary64 (BitVec.ofNat 64 (withSign s code)) =
      0#(Format.binary64.exponentBits)) ↔ code / 4503599627370496 = 0 := by
    rw [← BitVec.toNat_inj, hexponent]
    rfl
  have hnone : (@unpackMantissa Format.binary64 (BitVec.ofNat 64 (withSign s code)) =
      0#(Format.binary64.mantissaBitsWithoutImplicit)) ↔ code % 4503599627370496 = 0 := by
    rw [← BitVec.toNat_inj, hmantissa]
    rfl
  have happend (m : BitVec 52) : (1#1 ++ m).toNat = stretch + m.toNat := by
    have hm := m.isLt
    rw [BitVec.toNat_append, ← Nat.shiftLeft_add_eq_or_of_lt hm]
    rfl
  have hbias : ((Format.binary64.exponentBias : Int) + (52 : Nat)) = 1075 := rfl
  unfold UnpackedFloat.unpack apart
  simp only [hlast, hfirst, hnone, hexponent, hmantissa, hsign, happend, hbias]
  have hinfinity : infinity = 2047 * 4503599627370496 := rfl
  have hstretch : stretch = 4503599627370496 := rfl
  by_cases hinfinite : code = infinity
  · rw [if_pos (by omega), if_pos (by omega), if_pos hinfinite]
  · rw [if_neg (show ¬code / 4503599627370496 = 2047 by omega), if_neg hinfinite]
    by_cases hzero : code = 0
    · rw [if_pos (by omega), dif_pos (by omega), dif_pos hzero]
    · rw [dif_neg hzero]
      by_cases hsmall : code < stretch
      · rw [if_pos (by omega), dif_neg (by omega), if_pos hsmall]
        congr 1 <;> omega
      · rw [if_neg (by omega), if_neg hsmall]
        rfl

/-- Put together again they are the same bits. -/
theorem pack_apart :
    UnpackedFloat.pack Format.binary64 (apart s code) = BitVec.ofNat 64 (withSign s code) := by
  rw [← unpack_withSign s h, pack_unpack]
  refine if_neg fun hnan => ?_
  obtain ⟨hexponent, hmantissa⟩ := of_decide_eq_true hnan
  have hlast := congrArg BitVec.toNat hexponent
  rw [exponent_withSign s h] at hlast
  refine hmantissa (BitVec.eq_of_toNat_eq ?_)
  have hinfinity : infinity = 2047 * 4503599627370496 := rfl
  have hones : (-1#(Format.binary64.exponentBits)).toNat = 2047 := rfl
  have hnone : (0#(Format.binary64.mantissaBitsWithoutImplicit)).toNat = 0 := rfl
  rw [mantissa_withSign s h, hnone]
  rw [hones] at hlast
  omega

end Fields

/-! ### Numbers -/

/-- The number of a sign and a magnitude. -/
def ofCode (s : Sign) (code : Nat) : Float := Float.ofBits (UInt64.ofNat (withSign s code))

theorem toBits_ofCode (h : code ≤ infinity) :
    (ofCode s code).toBits = UInt64.ofNat (withSign s code) := by
  refine UInt64.toBitVec_inj.mp ?_
  show UnpackedFloat.pack Format.binary64
    (UnpackedFloat.unpack Format.binary64 (BitVec.ofNat 64 (withSign s code))) = _
  rw [unpack_withSign s h, pack_apart s h]
  rfl

theorem toNat_toBits_ofCode (h : code ≤ infinity) :
    (ofCode s code).toBits.toNat = withSign s code := by
  rw [toBits_ofCode h, UInt64.toNat_ofNat_of_lt' (withSign_lt h)]

theorem unpack_ofCode (h : code ≤ infinity) : (ofCode s code).toModel.unpack = apart s code := by
  have hbits : (ofCode s code).toBits.toBitVec = BitVec.ofNat 64 (withSign s code) := by
    rw [toBits_ofCode h]
    rfl
  show UnpackedFloat.unpack Format.binary64 (ofCode s code).toBits.toBitVec = _
  rw [hbits, unpack_withSign s h]

theorem codeOf_ofCode (h : code ≤ infinity) : codeOf (ofCode s code) = code := by
  rw [codeOf, toNat_toBits_ofCode h]
  simp only [infinity] at h
  cases s <;> simp only [withSign, signBit] <;> omega

theorem isNegative_ofCode (h : code ≤ infinity) :
    isNegative (ofCode s code) = (s == .negative) := by
  rw [isNegative, toNat_toBits_ofCode h]
  simp only [infinity] at h
  cases s with
  | negative => exact decide_eq_true (Nat.le_add_right signBit code)
  | positive =>
      refine decide_eq_false ?_
      simp only [withSign, signBit]
      omega

/-- The sign of a number. -/
def signOf (x : Float) : Sign := if isNegative x then .negative else .positive

theorem ofCode_codeOf (x : Float) : ofCode (signOf x) (codeOf x) = x := by
  have hlt := x.toBits.toNat_lt
  have hbits : withSign (signOf x) (codeOf x) = x.toBits.toNat := by
    unfold signOf isNegative codeOf
    split
    · next hsign =>
        have hle := of_decide_eq_true hsign
        simp only [withSign, signBit] at hle ⊢
        omega
    · next hsign =>
        have hle := of_decide_eq_false (Bool.eq_false_iff.mpr hsign)
        simp only [withSign, signBit] at hle ⊢
        omega
  rw [ofCode, hbits, UInt64.ofNat_toNat, Float.ofBits_toBits]

/-- Negation changes the sign alone. -/
theorem neg_ofCode (h : code ≤ infinity) : -ofCode s code = ofCode (-s) code := by
  refine Float.toBits_inj.mp (UInt64.toBitVec_inj.mp ?_)
  show UnpackedFloat.pack Format.binary64 (ofCode s code).toModel.unpack.neg = _
  have hneg : (apart s code).neg = apart (-s) code := by
    unfold apart
    split_ifs <;> rfl
  rw [unpack_ofCode h, hneg, pack_apart _ h, toBits_ofCode h]
  rfl

theorem abs_ofCode (h : code ≤ infinity) : (ofCode s code).abs = ofCode .positive code := by
  refine Float.toBits_inj.mp (UInt64.toBitVec_inj.mp ?_)
  show UnpackedFloat.pack Format.binary64 (ofCode s code).toModel.unpack.abs = _
  have habs : (apart s code).abs = apart .positive code := by
    unfold apart
    split_ifs <;> rfl
  rw [unpack_ofCode h, habs, pack_apart _ h, toBits_ofCode h]
  rfl

/-! ### Order -/

theorem compare_apart_self (code : Nat) :
    (apart .positive code).compare (apart .positive code) = some .eq := by
  unfold apart
  split_ifs
  · rfl
  · rfl
  · simp [UnpackedFloat.compare]
  · simp [UnpackedFloat.compare]

/-- The exponents decide, and the mantissas between equal ones. -/
theorem compare_finite_of_gt {m m' : Nat} {e e' : Int} (hm : 0 < m) (hm' : 0 < m')
    (h : e' < e ∨ e' = e ∧ m' < m) :
    (UnpackedFloat.finite .positive m e hm).compare (.finite .positive m' e' hm') = some .gt := by
  have hthen : (compare e e').then (compare m m') = .gt := by
    rcases h with hlt | ⟨rfl, hlt⟩
    · rw [Int.compare_eq_gt.mpr hlt]
      rfl
    · rw [Nat.compare_eq_gt.mpr hlt, Int.compare_eq_eq.mpr rfl]
      rfl
  exact congrArg some hthen

theorem compare_apart_of_gt {code' : Nat} (h : code ≤ infinity) (hgt : code' < code) :
    (apart .positive code).compare (apart .positive code') = some .gt := by
  have hstretch : stretch = 4503599627370496 := rfl
  unfold apart
  rw [if_neg (show ¬code' = infinity by omega), dif_neg (show ¬code = 0 by omega)]
  have hplace : code' / stretch < code / stretch ∨
      code' / stretch = code / stretch ∧ code' % stretch < code % stretch := by
    rw [hstretch]
    omega
  split_ifs
  · rfl
  · rfl
  · rfl
  · rfl
  · exact compare_finite_of_gt _ _ (.inr ⟨rfl, hgt⟩)
  · omega
  · rfl
  · next hlarge hpositive hsmall =>
      refine compare_finite_of_gt _ _ ?_
      rw [hstretch] at hlarge hsmall ⊢
      omega
  · refine compare_finite_of_gt _ _ ?_
    omega

theorem le_of_ofCode_le {code' : Nat} (h : code ≤ infinity) (h' : code' ≤ infinity)
    (hle : ofCode .positive code ≤ ofCode .positive code') : code ≤ code' := by
  by_contra hgt
  have hcompare : (ofCode .positive code).toModel.unpack.le
      (ofCode .positive code').toModel.unpack = true := of_decide_eq_true hle
  rw [unpack_ofCode h, unpack_ofCode h', UnpackedFloat.le,
    compare_apart_of_gt h (Nat.lt_of_not_le hgt)] at hcompare
  contradiction

theorem lt_of_ofCode_lt {code' : Nat} (h : code ≤ infinity) (h' : code' ≤ infinity)
    (hlt : ofCode .positive code < ofCode .positive code') : code < code' := by
  by_contra hge
  have hcompare : (ofCode .positive code).toModel.unpack.lt
      (ofCode .positive code').toModel.unpack = true := of_decide_eq_true hlt
  rw [unpack_ofCode h, unpack_ofCode h', UnpackedFloat.lt] at hcompare
  rcases Nat.lt_or_eq_of_le (Nat.le_of_not_lt hge) with hgt | rfl
  · rw [compare_apart_of_gt h hgt] at hcompare
    contradiction
  · rw [compare_apart_self] at hcompare
    contradiction

theorem unpack_of_lt_codeOf (h : infinity < codeOf x) : x.toModel.unpack = .notANumber := by
  have hcode : codeOf x = x.toBits.toBitVec.toNat % 9223372036854775808 := rfl
  have hinfinity : infinity = 2047 * 4503599627370496 := rfl
  have hlast : @unpackExponent Format.binary64 x.toBits.toBitVec =
      -1#(Format.binary64.exponentBits) := by
    refine BitVec.eq_of_toNat_eq ?_
    rw [unpackExponent_toNat]
    show _ = 2047
    omega
  have hsome : @unpackMantissa Format.binary64 x.toBits.toBitVec ≠
      0#(Format.binary64.mantissaBitsWithoutImplicit) := by
    intro hnone
    have hzero := congrArg BitVec.toNat hnone
    rw [unpackMantissa_toNat] at hzero
    have hnat : (0#(Format.binary64.mantissaBitsWithoutImplicit)).toNat = 0 := rfl
    omega
  show UnpackedFloat.unpack Format.binary64 x.toBits.toBitVec = _
  unfold UnpackedFloat.unpack
  simp only [hlast, hsome, if_true, if_false]

/-- What is not a number is in no order. -/
theorem codeOf_le_of_abs_lt (h : x.abs < y) : codeOf x ≤ infinity := by
  by_contra hgt
  have hcompare : x.abs.toModel.unpack.lt y.toModel.unpack = true := of_decide_eq_true h
  have habs : x.abs.toModel.unpack =
      UnpackedFloat.unpack Format.binary64 (UnpackedFloat.pack Format.binary64 .notANumber) := by
    show UnpackedFloat.unpack Format.binary64
      (UnpackedFloat.pack Format.binary64 x.toModel.unpack.abs) = _
    rw [unpack_of_lt_codeOf (Nat.lt_of_not_le hgt)]
    rfl
  have hnan : UnpackedFloat.unpack Format.binary64
      (UnpackedFloat.pack Format.binary64 .notANumber) = .notANumber := rfl
  rw [habs, hnan] at hcompare
  contradiction

end MiniLox.Binary64
