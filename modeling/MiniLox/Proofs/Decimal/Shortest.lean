import Mathlib.Algebra.Order.Field.Rat
import Mathlib.Tactic.NormNum
import Mathlib.Tactic.Ring
import MiniLox.Decimal.Shortest
import MiniLox.Proofs.Decimal.Nearest

/-!
The shortest decimal of a code rounds to the code again. Which fractions round to
a code depends on their values alone, so the zeros at the end of the digits may go.
-/

namespace MiniLox

namespace Binary64

variable {num den num' den' code : Nat}

/-- The value of a fraction, twice as many units. -/
def twice (num den : Nat) : ℚ := 2 * ((num : ℚ) / den * unitsPerOne)

theorem twice_eq (num den : Nat) : twice num den = (2 * (num * unitsPerOne) : Nat) / (den : ℚ) := by
  rw [twice]
  push_cast
  ring

theorem le_twice_iff (hden : 0 < den) (a : Nat) :
    (a : ℚ) ≤ twice num den ↔ a * den ≤ 2 * (num * unitsPerOne) := by
  rw [twice_eq, le_div_iff₀ (Nat.cast_pos.mpr hden)]
  exact_mod_cast Iff.rfl

theorem twice_le_iff (hden : 0 < den) (a : Nat) :
    twice num den ≤ a ↔ 2 * (num * unitsPerOne) ≤ a * den := by
  rw [twice_eq, div_le_iff₀ (Nat.cast_pos.mpr hden)]
  exact_mod_cast Iff.rfl

/-- Whether a code is surrounded is a matter of the value of the fraction. -/
theorem Surrounds.of_value_eq (h : Surrounds num den code) (hden : 0 < den) (hden' : 0 < den')
    (hvalue : (num : ℚ) / den = num' / den') : Surrounds num' den' code := by
  have htwice : twice num den = twice num' den' := by rw [twice, twice, hvalue]
  have hle (a : Nat) :
      a * den ≤ 2 * (num * unitsPerOne) ↔ a * den' ≤ 2 * (num' * unitsPerOne) := by
    rw [← le_twice_iff hden, ← le_twice_iff hden', htwice]
  have hge (a : Nat) :
      2 * (num * unitsPerOne) ≤ a * den ↔ 2 * (num' * unitsPerOne) ≤ a * den' := by
    rw [← twice_le_iff hden, ← twice_le_iff hden', htwice]
  unfold Surrounds at h ⊢
  split at h
  · next heven => rwa [if_pos heven, ← hle, ← hge]
  · next hodd =>
      rw [if_neg hodd, ← Nat.not_le, ← Nat.not_le, ← hle, ← hge, Nat.not_le, Nat.not_le]
      exact h

/-- The exact value of a code lies between the middles of the gaps. -/
theorem surrounds_of_exact (hden : 0 < den) (h : units code * den = num * unitsPerOne) :
    Surrounds num den code := by
  have hlow : units (code - 1) * den ≤ units code * den :=
    Nat.mul_le_mul_right den (units_strictMono.monotone (Nat.sub_le code 1))
  have hhigh : units code * den < units (code + 1) * den :=
    Nat.mul_lt_mul_of_pos_right (units_strictMono (Nat.lt_succ_self code)) hden
  unfold Surrounds
  rw [Nat.add_mul, Nat.add_mul, ← h]
  split
  · omega
  · next hodd =>
      have hgap : units (code - 1) * den < units code * den :=
        Nat.mul_lt_mul_of_pos_right (units_strictMono (by omega)) hden
      omega

end Binary64

namespace Decimal

variable {d d' : Decimal} {code : Nat}

/-- The number that the decimal is. -/
def value (d : Decimal) : ℚ := d.digits * 10 ^ d.exponent

theorem den_pos (d : Decimal) : 0 < d.den := Nat.pow_pos (by decide)

theorem num_div_den (d : Decimal) : (d.num : ℚ) / d.den = d.value := by
  obtain ⟨digits, exponent⟩ := d
  unfold num den value
  simp only [Nat.pow_eq]
  push_cast
  rcases le_total 0 exponent with hsign | hsign
  · obtain ⟨n, rfl⟩ := Int.eq_ofNat_of_zero_le hsign
    simp
  · obtain ⟨n, hn⟩ := Int.eq_ofNat_of_zero_le (Int.neg_nonneg.mpr hsign)
    obtain rfl : exponent = -(n : Int) := by omega
    simp [div_eq_mul_inv]

/-- Decimals of one value are read as the same codes. -/
theorem readsAs_of_value_eq (h : readsAs code d = true) (hvalue : d.value = d'.value) :
    readsAs code d' = true := by
  rw [readsAs, decide_eq_true_eq] at h ⊢
  exact h.of_value_eq d.den_pos d'.den_pos (by rw [num_div_den, num_div_den, hvalue])

/-- A whole number that is the magnitude itself is read as it. -/
theorem readsAs_whole {n : Nat} (h : Binary64.units code = n * Binary64.unitsPerOne) :
    readsAs code { digits := n, exponent := 0 } = true := by
  rw [readsAs, decide_eq_true_eq]
  refine Binary64.surrounds_of_exact (den_pos _) ?_
  simpa [num, den] using h

theorem code_of_readsAs (hcode : code < Binary64.infinity) (h : readsAs code d = true) :
    d.code = code :=
  Binary64.nearest_of_surrounds d.den_pos hcode (of_decide_eq_true h)

theorem value_normalize (d : Decimal) : d.normalize.value = d.value := by
  fun_induction normalize d with
  | case1 d h ih =>
      have hdigits : (d.digits : ℚ) = 10 * ((d.digits / 10 : Nat) : ℚ) := by
        exact_mod_cast (by omega : d.digits = 10 * (d.digits / 10))
      rw [ih, value, value, hdigits, zpow_add_one₀ (by norm_num)]
      ring
  | case2 d h => rfl

theorem nearer_cases (units : Nat) (below : Decimal) :
    nearer units below = below ∨ nearer units below = below.gridNext := by
  unfold nearer
  dsimp only
  split_ifs <;> simp

theorem readsAs_of_onGrid? {exponent : Int} (h : onGrid? code exponent = some d) :
    readsAs code d = true := by
  unfold onGrid? at h
  dsimp only at h
  split at h
  · next hbelow hnext =>
      obtain rfl := Option.some.inj h
      rcases nearer_cases (Binary64.units code) (gridFloor (Binary64.units code) exponent)
        with heq | heq
      · simpa only [heq] using hbelow
      · simpa only [heq] using hnext
  · next hbelow hnext =>
      obtain rfl := Option.some.inj h
      exact hbelow
  · next hbelow hnext =>
      obtain rfl := Option.some.inj h
      exact hnext
  · contradiction

/-- Units of `2 ^ -places` are written with that many places. -/
theorem readsAs_of_places {places : Nat} (hunits : Binary64.unitsPerOne = Nat.pow 2 places) :
    readsAs code { digits := Binary64.units code * Nat.pow 5 places, exponent := -places } =
      true := by
  rw [readsAs, decide_eq_true_eq]
  refine Binary64.surrounds_of_exact (den_pos _) ?_
  simp only [num, den, Nat.pow_eq, neg_neg, Int.toNat_natCast, Int.toNat_neg_natCast, pow_zero,
    mul_one, hunits, Nat.mul_assoc, ← Nat.mul_pow]

theorem readsAs_exact (code : Nat) : readsAs code (exact code) = true := by
  have hunits : Binary64.unitsPerOne = Nat.pow 2 1074 := by
    unfold Binary64.unitsPerOne
    rfl
  have hplaces := @readsAs_of_places code _ hunits
  have hexponent : -((1074 : Nat) : Int) = -1074 := rfl
  rw [hexponent] at hplaces
  unfold exact
  exact hplaces

/-- The shortest decimal of a code is read as the code. -/
theorem readsAs_shortest (code : Nat) : readsAs code (shortest code) = true := by
  unfold shortest
  dsimp only
  refine readsAs_of_value_eq ?_ (value_normalize _).symm
  generalize hfound : (List.range 17).findSome? _ = found
  cases found with
  | none => simpa only [Option.getD_none] using readsAs_exact code
  | some d =>
      obtain ⟨n, -, hgrid⟩ := List.exists_of_findSome?_eq_some hfound
      exact readsAs_of_onGrid? hgrid

/-- A finite magnitude is read back from its shortest decimal. -/
theorem code_shortest (hcode : code < Binary64.infinity) : (shortest code).code = code :=
  code_of_readsAs hcode (readsAs_shortest code)

end Decimal

end MiniLox
