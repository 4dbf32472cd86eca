import Mathlib.Order.Interval.Set.OrdConnected
import Mathlib.Tactic.FieldSimp
import Mathlib.Tactic.Linarith
import Mathlib.Tactic.Positivity
import Mathlib.Tactic.Ring
import MiniLox.Proofs.Decimal.Texts

/-!
The decimals that are read as a code are those of an interval around its value. The gaps
between the codes are not small, compared with their values, so the interval holds all that
is near.
-/

namespace MiniLox

namespace Binary64

variable {num den code : Nat}

/-- Codes are apart by one of their units of the last place. -/
theorem exists_units_eq_mul (code : Nat) : ∃ mantissa gap, mantissa < 2 * stretch ∧
    units code = mantissa * gap ∧ units (code + 1) = (mantissa + 1) * gap := by
  rw [units_succ]
  rcases Nat.lt_or_ge code stretch with hfirst | hlater
  · refine ⟨code, 1, by omega, by rw [units_of_lt hfirst, Nat.mul_one], ?_⟩
    rw [units_of_lt hfirst, Nat.div_eq_of_lt hfirst, Nat.mul_one]
    rfl
  · have hplace := Nat.mod_lt code stretch_pos
    refine ⟨stretch + code % stretch, 2 ^ (code / stretch - 1), by omega, units_of_ge hlater, ?_⟩
    rw [units_of_ge hlater, Nat.succ_mul]

/-- The next code is not far above. -/
theorem units_le_gap_above (code : Nat) :
    2 * stretch * units code + units code ≤ 2 * stretch * units (code + 1) := by
  obtain ⟨mantissa, gap, hmantissa, hunits, hnext⟩ := exists_units_eq_mul code
  have hgap : mantissa * gap ≤ 2 * stretch * gap := Nat.mul_le_mul_right gap hmantissa.le
  calc 2 * stretch * units code + units code
      = 2 * stretch * (mantissa * gap) + mantissa * gap := by rw [hunits]
    _ ≤ 2 * stretch * (mantissa * gap) + 2 * stretch * gap := Nat.add_le_add_left hgap _
    _ = 2 * stretch * units (code + 1) := by rw [hnext]; ring

/-- Nor is the one before far below. -/
theorem units_le_gap_below (code : Nat) :
    2 * stretch * units code + units (code + 1) ≤ 2 * stretch * units (code + 1) := by
  obtain ⟨mantissa, gap, hmantissa, hunits, hnext⟩ := exists_units_eq_mul code
  have hgap : (mantissa + 1) * gap ≤ 2 * stretch * gap := Nat.mul_le_mul_right gap hmantissa
  calc 2 * stretch * units code + units (code + 1)
      = 2 * stretch * (mantissa * gap) + (mantissa + 1) * gap := by rw [hunits, hnext]
    _ ≤ 2 * stretch * (mantissa * gap) + 2 * stretch * gap := Nat.add_le_add_left hgap _
    _ = 2 * stretch * units (code + 1) := by rw [hnext]; ring

/-- The numbers that round to a code, in half units. -/
def interval (code : Nat) : Set ℚ :=
  if code % 2 = 0 then Set.Icc (units (code - 1) + units code) (units code + units (code + 1))
  else Set.Ioo (units (code - 1) + units code) (units code + units (code + 1))

theorem mem_interval_of_mem {a b c : ℚ} (ha : a ∈ interval code) (hc : c ∈ interval code)
    (hab : a ≤ b) (hbc : b ≤ c) : b ∈ interval code := by
  unfold interval at *
  split_ifs at *
  · exact Set.ordConnected_Icc.out ha hc ⟨hab, hbc⟩
  · exact Set.ordConnected_Ioo.out ha hc ⟨hab, hbc⟩

theorem surrounds_iff (hden : 0 < den) :
    Surrounds num den code ↔ twice num den ∈ interval code := by
  have hlow := @le_twice_iff num den hden (units (code - 1) + units code)
  have hhigh := @twice_le_iff num den hden (units code + units (code + 1))
  have hlow' := @twice_le_iff num den hden (units (code - 1) + units code)
  have hhigh' := @le_twice_iff num den hden (units code + units (code + 1))
  push_cast at hlow hhigh hlow' hhigh'
  unfold Surrounds interval
  dsimp only
  split
  · rw [Set.mem_Icc, hlow, hhigh]
  · rw [Set.mem_Ioo, ← Nat.not_le, ← Nat.not_le, ← hlow', ← hhigh', not_le, not_le]

/-- A number that is near enough to a magnitude rounds to it. -/
theorem mem_interval_of_near (hne : code ≠ 0) {w : ℚ}
    (h : |w - 2 * units code| * (2 * stretch) < units code) : w ∈ interval code := by
  obtain ⟨before, rfl⟩ := Nat.exists_eq_succ_of_ne_zero hne
  have habove : (2 * stretch * units (before + 1) + units (before + 1) : ℚ) ≤
      2 * stretch * units (before + 1 + 1) := by
    exact_mod_cast units_le_gap_above (before + 1)
  have hbelow : (2 * stretch * units before + units (before + 1) : ℚ) ≤
      2 * stretch * units (before + 1) := by
    exact_mod_cast units_le_gap_below before
  have hstretch : (0 : ℚ) < 2 * stretch := by
    have := stretch_pos
    positivity
  have hmem : w ∈ Set.Ioo (units before + units (before + 1) : ℚ)
      (units (before + 1) + units (before + 1 + 1)) := by
    have hlow : (2 * units (before + 1) - w) * (2 * stretch) < units (before + 1) :=
      lt_of_le_of_lt (mul_le_mul_of_nonneg_right (by rw [abs_sub_comm]; exact le_abs_self _)
        hstretch.le) h
    have hhigh : (w - 2 * units (before + 1)) * (2 * stretch) < units (before + 1) :=
      lt_of_le_of_lt (mul_le_mul_of_nonneg_right (le_abs_self _) hstretch.le) h
    constructor
    · refine lt_of_mul_lt_mul_right ?_ hstretch.le
      linarith
    · refine lt_of_mul_lt_mul_right ?_ hstretch.le
      linarith
  unfold interval
  split
  · exact Set.Ioo_subset_Icc_self hmem
  · exact hmem

end Binary64

namespace Decimal

open Binary64

variable {code : Nat} {d d' w : Decimal}

/-- The exponents are not to be computed with. -/
theorem exists_exact_eq (code : Nat) : ∃ (places : Nat) (e : Int),
    exact code = { digits := units code * Nat.pow 5 places, exponent := e } ∧ e = -places ∧
      unitsPerOne = Nat.pow 2 places := by
  refine ⟨_, _, rfl, rfl, ?_⟩
  unfold unitsPerOne
  rfl

theorem value_exact (code : Nat) : (exact code).value * unitsPerOne = units code := by
  obtain ⟨places, e, hexact, rfl, hunits⟩ := exists_exact_eq code
  have hten : (10 : ℚ) ^ places = 5 ^ places * 2 ^ places := by
    rw [← mul_pow]
    norm_num
  rw [hexact, hunits, value, Nat.pow_eq, Nat.pow_eq, zpow_neg, zpow_natCast, hten]
  push_cast
  field_simp

theorem readsAs_of_code (hcode : code < infinity) (h : d.code = code) : readsAs code d = true :=
  decide_eq_true (surrounds_of_nearest h d.den_pos hcode)

theorem readsAs_iff :
    readsAs code d = true ↔ 2 * (d.value * unitsPerOne) ∈ interval code := by
  rw [readsAs, decide_eq_true_eq, surrounds_iff d.den_pos, twice_num_den]

/-- What is between two decimals that are read as a code is read as it, too. -/
theorem readsAs_of_between (h : readsAs code d = true) (h' : readsAs code d' = true)
    (hlow : d.value ≤ w.value) (hhigh : w.value ≤ d'.value) : readsAs code w = true := by
  have hunits : (0 : ℚ) ≤ unitsPerOne := Nat.cast_nonneg _
  rw [readsAs_iff] at h h' ⊢
  refine mem_interval_of_mem h h' ?_ ?_
  · exact mul_le_mul_of_nonneg_left (mul_le_mul_of_nonneg_right hlow hunits) zero_le_two
  · exact mul_le_mul_of_nonneg_left (mul_le_mul_of_nonneg_right hhigh hunits) zero_le_two

theorem readsAs_of_near (hne : code ≠ 0)
    (h : |d.value - (exact code).value| * (4 * stretch) < (exact code).value) :
    readsAs code d = true := by
  have hunits : (0 : ℚ) < unitsPerOne := Nat.cast_pos.mpr unitsPerOne_pos
  rw [readsAs_iff]
  refine mem_interval_of_near hne ?_
  have hscaled : 2 * (d.value * unitsPerOne) - 2 * (units code : ℚ) =
      (d.value - (exact code).value) * (2 * unitsPerOne) := by
    rw [← value_exact]
    ring
  rw [hscaled, abs_mul, abs_of_pos (mul_pos two_pos hunits), ← value_exact]
  calc |d.value - (exact code).value| * (2 * unitsPerOne) * (2 * stretch)
      = |d.value - (exact code).value| * (4 * stretch) * unitsPerOne := by ring
    _ < (exact code).value * unitsPerOne := mul_lt_mul_of_pos_right h hunits

end Decimal

end MiniLox
