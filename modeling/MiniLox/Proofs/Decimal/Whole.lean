import Mathlib.Algebra.Order.Field.Rat
import Mathlib.Tactic.IntervalCases
import Mathlib.Tactic.Positivity
import MiniLox.Proofs.Decimal.Fewest

/-!
The shortest decimals of whole numbers. Below the limit from which numbers have an
exponent, every even number is a magnitude, and every number is one below half of it,
so a whole number there is read from no decimal but itself. Its shortest decimal is
the number, its digits are all written, and no fraction is rounded to a whole number
on the way to its text.
-/

namespace MiniLox

namespace Binary64

variable {n code : Nat}

/-- A number with a mantissa of full length is the magnitude of a code. -/
theorem exists_units_eq_of_mantissa {mantissa : Nat} (hlow : stretch ≤ mantissa)
    (hhigh : mantissa < 2 * stretch) (later : Nat) :
    ∃ code, units code = mantissa * 2 ^ later ∧ code < stretch * (later + 2) := by
  obtain ⟨place, rfl⟩ := Nat.exists_eq_add_of_le hlow
  refine ⟨stretch * (later + 1) + place, units_stretch_mul_add (by omega) later, ?_⟩
  rw [Nat.mul_add stretch later 2, Nat.mul_add stretch later 1]
  omega

/-- A number below the first that is left out is shifted to a mantissa of full length. -/
theorem exists_mantissa {places : Nat} (hn : 0 < n) (hsmall : n < 2 * stretch)
    (hplaces : 52 ≤ places) : ∃ mantissa later, stretch ≤ mantissa ∧ mantissa < 2 * stretch ∧
      later ≤ places ∧ mantissa * 2 ^ later = n * 2 ^ places := by
  have hplace : n.log2 ≤ 52 := by
    by_contra hgt
    have hlog := Nat.log2_self_le (Nat.ne_of_gt hn)
    have hpow : 2 ^ 53 ≤ 2 ^ n.log2 := Nat.pow_le_pow_right (by decide) (by omega)
    have hstretch : 2 * stretch = 2 ^ 53 := rfl
    omega
  refine ⟨n * 2 ^ (52 - n.log2), places - (52 - n.log2), ?_, ?_, by omega, ?_⟩
  · have hstretch : stretch = 2 ^ n.log2 * 2 ^ (52 - n.log2) := by
      rw [← Nat.pow_add, Nat.add_sub_cancel' hplace]
      rfl
    rw [hstretch]
    exact Nat.mul_le_mul_right _ (Nat.log2_self_le (Nat.ne_of_gt hn))
  · have hstretch : 2 * stretch = 2 ^ (n.log2 + 1) * 2 ^ (52 - n.log2) := by
      rw [← Nat.pow_add, Nat.add_right_comm, Nat.add_sub_cancel' hplace]
      rfl
    rw [hstretch]
    exact Nat.mul_lt_mul_of_pos_right Nat.lt_log2_self (Nat.two_pow_pos _)
  · rw [Nat.mul_assoc, ← Nat.pow_add, Nat.add_sub_cancel' (by omega)]

/-- All numbers up to a mantissa's length are magnitudes, and twice as far the even ones. -/
theorem exists_units_eq (h : n < 2 * stretch ∨ 2 ∣ n ∧ n < 4 * stretch) :
    ∃ code, code < infinity ∧ units code = n * unitsPerOne := by
  obtain ⟨places, hplaces, hunits⟩ := exists_unitsPerOne_eq
  rw [Nat.pow_eq] at hunits
  rcases Nat.eq_zero_or_pos n with rfl | hn
  · exact ⟨0, by decide, by rw [units_zero, Nat.zero_mul]⟩
  obtain ⟨mantissa, later, hlow, hhigh, hlater, hvalue⟩ : ∃ mantissa later,
      stretch ≤ mantissa ∧ mantissa < 2 * stretch ∧ later ≤ places + 1 ∧
        mantissa * 2 ^ later = n * 2 ^ places := by
    rcases Nat.lt_or_ge n (2 * stretch) with hsmall | hlarge
    · obtain ⟨mantissa, later, hlow, hhigh, hlater, hvalue⟩ :=
        exists_mantissa hn hsmall (show 52 ≤ places by omega)
      exact ⟨mantissa, later, hlow, hhigh, Nat.le_succ_of_le hlater, hvalue⟩
    · obtain ⟨half, rfl⟩ := (h.resolve_left (Nat.not_lt.mpr hlarge)).1
      refine ⟨half, places + 1, by omega, by omega, Nat.le_refl _, ?_⟩
      rw [Nat.pow_succ, Nat.mul_comm _ 2, ← Nat.mul_assoc, Nat.mul_comm half 2]
  obtain ⟨code, hcode, hlt⟩ := exists_units_eq_of_mantissa hlow hhigh later
  refine ⟨code, ?_, by rw [hcode, hvalue, hunits]⟩
  have hstretch : stretch = 4503599627370496 := rfl
  have hinfinity : infinity = 4503599627370496 * 2047 := rfl
  have hle : stretch * (later + 2) ≤ stretch * (places + 3) := Nat.mul_le_mul_left _ (by omega)
  rw [hplaces, hstretch] at hle
  rw [hstretch] at hlt
  omega

/-- From this code on there are whole numbers only. -/
def wholeFrom : Nat := stretch * 1075

theorem units_wholeFrom : units wholeFrom = stretch * unitsPerOne := by
  obtain ⟨places, hplaces, hunits⟩ := exists_unitsPerOne_eq
  have hfrom : wholeFrom = stretch * (places + 1) + 0 := by
    rw [hplaces]
    rfl
  rw [hfrom, units_stretch_mul_add (by decide), Nat.add_zero, hunits, Nat.pow_eq]

theorem exists_whole_of_le (h : wholeFrom ≤ code) : ∃ n, units code = n * unitsPerOne := by
  obtain ⟨places, hplaces, hunits⟩ := exists_unitsPerOne_eq
  have hquotient : 1075 ≤ code / stretch :=
    (Nat.le_div_iff_mul_le (by decide)).mpr (Nat.mul_comm _ _ ▸ h)
  have hlarge : ¬code < stretch := by
    have hlow : stretch ≤ wholeFrom := by decide
    omega
  obtain ⟨more, hmore⟩ := Nat.exists_eq_add_of_le (show places ≤ code / stretch - 1 by omega)
  refine ⟨(stretch + code % stretch) * 2 ^ more, ?_⟩
  unfold units
  rw [if_neg hlarge, hmore, hunits, Nat.pow_eq, Nat.pow_eq, Nat.pow_add, Nat.mul_assoc,
    Nat.mul_comm (2 ^ more)]

end Binary64

namespace Decimal

open Binary64

variable {n code : Nat} {d : Decimal} {e : Int}

theorem digitsOf_mul_ten (hn : 0 < n) : digitsOf (n * 10) = digitsOf n ++ ['0'] := by
  have happend :=
    Nat.toDigits_append_toDigits (b := 10) (n := n) (d := 0) (by decide) hn (by decide)
  rw [Nat.add_zero, Nat.mul_comm] at happend
  exact happend.symm

/-- A power of ten puts zeros behind the digits. -/
theorem digitsOf_mul_pow (hn : 0 < n) (zeros : Nat) :
    digitsOf (n * 10 ^ zeros) = digitsOf n ++ List.replicate zeros '0' := by
  induction zeros with
  | zero => simp
  | succ zeros ih =>
      have hpos : 0 < n * 10 ^ zeros := Nat.mul_pos hn (Nat.pow_pos (by decide))
      rw [Nat.pow_succ, ← Nat.mul_assoc, digitsOf_mul_ten hpos, ih, List.append_assoc,
        List.replicate_succ']

/-- The last digit is not zero unless ten divides the number. -/
theorem getLast?_digitsOf (h : n % 10 ≠ 0) : (digitsOf n).getLast? ≠ some '0' := by
  have hlast : (digitsOf n).getLast? = some (n % 10).digitChar := by
    rw [digitsOf, Nat.toDigits_eq_if (by decide)]
    split
    · next hlt => rw [Nat.mod_eq_of_lt hlt]; rfl
    · exact List.getLast?_concat
  rw [hlast]
  have hlt : n % 10 < 10 := Nat.mod_lt n (by decide)
  generalize n % 10 = digit at h hlt
  interval_cases digit <;> simp at h ⊢

/-- Digits that have been cut to the shortest do not end in a zero. -/
theorem normalize_digits (d : Decimal) : d.normalize.digits = 0 ∨ d.normalize.digits % 10 ≠ 0 := by
  fun_induction normalize d with
  | case1 d h ih => exact ih
  | case2 d h =>
      by_contra hno
      rw [not_or, not_not] at hno
      exact h hno

/-! ### The shortest decimal of a whole number -/

theorem magnitude_of_whole (hn : 0 < n) (h : units code = n * unitsPerOne) :
    magnitude (units code) = (digitsOf n).length := by
  obtain ⟨shift, places, hmagnitude, hplaces, -⟩ := exists_magnitude_eq
  have hdigits := congrArg List.length (digitsOf_mul_pow hn shift)
  rw [List.length_append, List.length_replicate] at hdigits
  rw [hmagnitude, h, Nat.pow_eq, Nat.mul_right_comm, Nat.mul_div_cancel _ unitsPerOne_pos,
    hdigits]
  omega

theorem gridFloor_of_whole (h : units code = n * unitsPerOne) :
    gridFloor (units code) 0 = { digits := n, exponent := 0 } := by
  unfold gridFloor
  simp only [neg_zero, Int.toNat_zero, Nat.pow_eq, Nat.pow_zero, Nat.mul_one]
  rw [h, Nat.mul_div_cancel n unitsPerOne_pos]

theorem exponent_of_onGrid? (h : onGrid? code e = some d) : d.exponent = e := by
  rcases onGrid?_cases h with rfl | rfl <;> rfl

/-- Among whole numbers a whole number is the nearest to itself. -/
theorem onGrid?_of_whole (h : units code = n * unitsPerOne) :
    onGrid? code 0 = some { digits := n, exponent := 0 } := by
  have hnearer : nearer (units code) { digits := n, exponent := 0 } =
      { digits := n, exponent := 0 } := by
    have hmiddle : 2 * units code * den { digits := n, exponent := 0 } <
        (2 * n + 1) * Nat.pow 10 (0 : Int).toNat * unitsPerOne := by
      have := unitsPerOne_pos
      simp only [den, h, neg_zero, Int.toNat_zero, Nat.pow_eq, Nat.pow_zero, Nat.mul_one,
        Nat.add_mul, Nat.one_mul, Nat.mul_assoc]
      omega
    unfold nearer
    dsimp only
    rw [if_pos hmiddle]
  unfold onGrid?
  dsimp only
  rw [gridFloor_of_whole h, readsAs_whole h, hnearer]
  split <;> simp_all

/-- A whole number below the limit is on the grid of whole numbers, and there the search ends at
the latest. -/
theorem exists_onGrid?_of_whole (hn : 0 < n) (hlimit : n < 10 ^ 16)
    (h : units code = n * unitsPerOne) :
    ∃ d, shortest code = d.normalize ∧ 0 ≤ d.exponent ∧ onGrid? code d.exponent = some d := by
  have hlength : 0 < (digitsOf n).length := List.length_pos_iff.mpr (digitsOf_ne_nil n)
  have hshort : (digitsOf n).length ≤ 16 := by
    by_contra hgt
    have hpow : 10 ^ 16 ≤ 10 ^ ((digitsOf n).length - 1) :=
      Nat.pow_le_pow_right (by decide) (by omega)
    exact absurd (hpow.trans (pow_le_of_digitsOf hn)) (by omega)
  have hmagnitude := magnitude_of_whole hn h
  -- The place of that grid in the search.
  have hzero : magnitude (units code) - (((digitsOf n).length - 1 : Nat) + 1) = 0 := by omega
  obtain ⟨place, d, hplace, hshortest, hgrid, -⟩ := exists_first_grid
    (show (digitsOf n).length - 1 < 17 by omega) ⟨_, hzero ▸ onGrid?_of_whole h⟩
  have hexponent := exponent_of_onGrid? hgrid
  refine ⟨d, hshortest, ?_, by rw [hexponent, hgrid]⟩
  rw [hexponent]
  omega

/-- A whole number that is a magnitude itself is read as no other magnitude. -/
theorem units_eq_of_readsAs (hn : n < 2 * stretch ∨ 2 ∣ n ∧ n < 4 * stretch)
    (hcode : code < infinity) (h : readsAs code d = true) (hvalue : d.value = n) :
    units code = n * unitsPerOne := by
  obtain ⟨code', hcode', hunits⟩ := exists_units_eq hn
  have hwhole : value { digits := n, exponent := 0 } = d.value := by
    rw [hvalue, value, zpow_zero, mul_one]
  have hread : readsAs code' d = true := readsAs_of_value_eq (readsAs_whole hunits) hwhole
  rw [← code_of_readsAs hcode h, code_of_readsAs hcode' hread, hunits]

theorem lt_pointLimit_of_whole (hlimit : n < 10 ^ 16) (h : units code = n * unitsPerOne) :
    code < pointLimit := by
  rw [← units_strictMono.lt_iff_lt, h, units_pointLimit]
  exact Nat.mul_lt_mul_of_pos_right hlimit unitsPerOne_pos

theorem value_shortest_of_whole (hn : 0 < n) (hlimit : n < 10 ^ 16)
    (h : units code = n * unitsPerOne) : (shortest code).value = n := by
  obtain ⟨d, hshortest, hexponent, hgrid⟩ := exists_onGrid?_of_whole hn hlimit h
  have hlt := lt_pointLimit_of_whole hlimit h
  rw [hshortest, value_normalize]
  obtain ⟨zeros, hzeros⟩ := Int.eq_ofNat_of_zero_le hexponent
  cases zeros with
  | zero =>
      rw [hzeros, Int.ofNat_zero, onGrid?_of_whole h] at hgrid
      rw [← Option.some.inj hgrid, value, zpow_zero, mul_one]
  | succ zeros =>
      -- On a coarser grid there are even numbers only.
      have hread := readsAs_of_onGrid? hgrid
      have hvalue : d.value = (d.digits * 10 ^ (zeros + 1) : Nat) := by
        rw [value, hzeros, zpow_natCast]
        push_cast
        rfl
      have hbound := value_lt_of_lt_pointLimit hread hlt
      rw [hvalue] at hbound ⊢
      have heven : 2 ∣ d.digits * 10 ^ (zeros + 1) :=
        (dvd_pow (by decide) (Nat.succ_ne_zero zeros)).mul_left d.digits
      have hunits := units_eq_of_readsAs (.inr ⟨heven, ?_⟩) (hlt.trans (by decide)) hread hvalue
      · rw [h] at hunits
        rw [Nat.eq_of_mul_eq_mul_right unitsPerOne_pos hunits]
      · have hlimit : (10 : ℚ) ^ 16 = ((10 ^ 16 : Nat) : ℚ) := by norm_num
        rw [hlimit, Nat.cast_lt] at hbound
        exact hbound.trans (by decide)

/-! ### Digits at the end -/

/-- The shortest decimal has no zero at the end of its digits. -/
theorem digits_shortest_mod (hne : code ≠ 0) (hcode : code < infinity) :
    (shortest code).digits % 10 ≠ 0 := by
  obtain ⟨d, hd⟩ : ∃ d : Decimal, shortest code = d.normalize := ⟨_, rfl⟩
  rcases normalize_digits d with hzero | hdigits
  · have hvalue : (shortest code).value = (0 : Nat) := by
      rw [hd, value, hzero, Nat.cast_zero, zero_mul]
    have hunits := units_eq_of_readsAs (.inl (by decide)) hcode (readsAs_shortest code) hvalue
    rw [Nat.zero_mul, units_eq_zero_iff] at hunits
    exact absurd hunits hne
  · rwa [hd]

/-- A whole number in positional notation. -/
theorem positional_of_whole (hdigits : d.digits % 10 ≠ 0) (hvalue : d.value = n) :
    d.positional = digitsOf n ++ ['.', '0'] := by
  obtain ⟨digits, exponent⟩ := d
  have hsign : 0 ≤ exponent := by
    by_contra hnegative
    obtain ⟨places, rfl⟩ : ∃ places : Nat, exponent = -((places + 1 : Nat) : Int) :=
      ⟨(-exponent).toNat - 1, by omega⟩
    have hscaled : (digits : ℚ) = (n * 10 ^ (places + 1) : Nat) := by
      rw [value, zpow_neg, zpow_natCast, ← div_eq_mul_inv, div_eq_iff (by positivity)] at hvalue
      push_cast
      exact hvalue
    have hten : digits = n * 10 ^ places * 10 := by
      rw [Nat.mul_assoc, ← Nat.pow_succ]
      exact_mod_cast hscaled
    rw [hten, Nat.mul_mod_left] at hdigits
    contradiction
  obtain ⟨zeros, rfl⟩ := Int.eq_ofNat_of_zero_le hsign
  have hwhole : n = digits * 10 ^ zeros := by
    rw [value, zpow_natCast] at hvalue
    exact_mod_cast hvalue.symm
  have hpos : 0 < digits := Nat.pos_of_ne_zero fun hzero => by
    rw [hzero] at hdigits
    contradiction
  unfold positional
  rw [if_pos hsign, hwhole, digitsOf_mul_pow hpos, Int.toNat_natCast]

theorem layout_of_whole (hn : 0 < n) (hlimit : n < 10 ^ 16) (h : units code = n * unitsPerOne) :
    (shortest code).layout = digitsOf n ++ ['.', '0'] := by
  have hlt := lt_pointLimit_of_whole hlimit h
  have hne : code ≠ 0 := by
    rintro rfl
    have hsome := Nat.mul_pos hn unitsPerOne_pos
    rw [← h, units_zero] at hsome
    exact Nat.lt_irrefl 0 hsome
  have hvalue := value_shortest_of_whole hn hlimit h
  have hdigits := digits_shortest_mod hne (hlt.trans (by decide))
  have hone : (1 : ℚ) ≤ n := by exact_mod_cast hn
  have hlow : (10 : ℚ) ^ (-4 : Int) ≤ 1 := by norm_num
  have hhigh := value_lt_of_lt_pointLimit (readsAs_shortest code) hlt
  rw [layout_eq_positional (hvalue ▸ hlow.trans hone) (by exact_mod_cast hhigh),
    positional_of_whole hdigits hvalue]

/-! ### The shortest decimal of any other number -/

/-- The shortest decimal of a fraction is a fraction. -/
theorem exponent_shortest_lt (hcode : code < infinity)
    (h : ¬∃ n, units code = n * unitsPerOne) : (shortest code).exponent < 0 := by
  by_contra hsign
  obtain ⟨zeros, hzeros⟩ := Int.eq_ofNat_of_zero_le (Int.not_lt.mp hsign)
  have hread := readsAs_shortest code
  have hvalue : (shortest code).value = ((shortest code).digits * 10 ^ zeros : Nat) := by
    rw [value, hzeros, zpow_natCast]
    push_cast
    rfl
  have hsmall : code < wholeFrom := Nat.lt_of_not_le fun hle => h (exists_whole_of_le hle)
  have hbound : (shortest code).value < (stretch : Nat) := by
    refine value_lt_of_readsAs hread hsmall ?_
    exact_mod_cast units_wholeFrom.le
  rw [hvalue, Nat.cast_lt] at hbound
  exact h ⟨_, units_eq_of_readsAs (.inl (by omega)) hcode hread hvalue⟩

theorem shortest_pointLimit : shortest pointLimit = { digits := 1, exponent := 16 } := by
  decide +kernel

theorem le_value_of_pointLimit_le (h : pointLimit ≤ code) : 10 ^ 16 ≤ (shortest code).value := by
  refine le_trans ?_ (value_shortest_mono h)
  rw [shortest_pointLimit]
  norm_num [value]

end Decimal

end MiniLox

