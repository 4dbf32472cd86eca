import Mathlib
import MiniLox.Decimal.Notation
import MiniLox.Proofs.Decimal.Nearest

/-!
What decimals round to. A decimal has no sign, so it rounds to one of the codes
up to infinity, none of which has the bit of the sign set. The machine number
is never the negative zero then, and among such numbers those that compare
equal are the same. The laws of machine numbers and of their bits that this
rests on come along with the whole of Mathlib only.
-/

namespace MiniLox

namespace Binary64

/-- Without the negative zero the comparison of numbers is equality. -/
theorem eq_of_beq {x y : Float} (hx : x ≠ -0) (hy : y ≠ -0) (h : (x == y) = true) : x = y := by
  obtain ⟨-, -, heq | ⟨-, hneg⟩ | ⟨hneg, -⟩⟩ := Float.beq_iff_ne_nan_and_eq.mp h
  · exact heq
  · exact absurd hneg hy
  · exact absurd hneg hx

open Float.Model in
/-- The bits of a machine number are those that it was made of, unless it is
none. -/
theorem toBits_ofBits (u : UInt64) :
    (Float.ofBits u).toBits = u ∨
      (Float.ofBits u).toBits.toBitVec = UnpackedFloat.packedNaN Format.binary64 := by
  have hpack : (Float.ofBits u).toBits.toBitVec =
      UnpackedFloat.pack Format.binary64 (UnpackedFloat.unpack Format.binary64 u.toBitVec) := rfl
  rw [UnpackedFloat.pack_unpack] at hpack
  split at hpack
  · exact .inr hpack
  · exact .inl (UInt64.toBitVec_inj.mp hpack)

/-- The negative zero has the bit of the sign set. -/
theorem ofBits_ne_neg_zero {n : Nat} (h : n < signBit) : Float.ofBits (UInt64.ofNat n) ≠ -0 := by
  intro hzero
  have hneg : (-0 : Float).toBits = 0x8000000000000000 := by decide +kernel
  rcases toBits_ofBits (UInt64.ofNat n) with hbits | hbits
  · rw [hzero, hneg] at hbits
    have hn := congrArg UInt64.toNat hbits
    rw [UInt64.toNat_ofNat_of_lt' (Nat.lt_trans h (by decide))] at hn
    rw [← hn] at h
    exact absurd h (by decide)
  · rw [hzero, hneg] at hbits
    exact absurd hbits (by decide)

end Binary64

namespace Decimal

theorem code_le (d : Decimal) : d.code ≤ Binary64.infinity := Binary64.nearest_le d.num d.den

theorem toFloat_ne_neg_zero (d : Decimal) : d.toFloat ≠ -0 :=
  Binary64.ofBits_ne_neg_zero (Nat.lt_of_le_of_lt d.code_le (by decide))

end Decimal

end MiniLox
