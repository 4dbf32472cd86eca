import Mathlib.Algebra.Order.Field.Rat
import Mathlib.Tactic.Linarith
import Mathlib.Tactic.NormNum
import Mathlib.Tactic.Positivity
import Mathlib.Tactic.Ring
import MiniLox.Proofs.Decimal.Interval

/-!
The shortest decimal of a code is the shortest. On either side of a value its neighbour on
a grid is the nearest of all decimals with as many digits, so if neither of the two
neighbours is read as the code, so many digits do not identify it. The first grid with an
answer has the fewest digits then, and the answer is the nearest among the decimals with so
many digits. Seventeen digits are always enough, for they make a grid that is finer than the
codes.
-/

namespace MiniLox

namespace Decimal

open Binary64

variable {code m k : Nat} {e : Int} {d : Decimal}

/-! ### Grids -/

theorem value_le_value (h : k ≤ m) :
    value { digits := k, exponent := e } ≤ value { digits := m, exponent := e } :=
  mul_le_mul_of_nonneg_right (Nat.cast_le.mpr h) (zpow_pos (by norm_num) e).le

theorem value_gridNext (d : Decimal) : d.gridNext.value = d.value + 10 ^ d.exponent := by
  rw [value, value, gridNext]
  push_cast
  ring

/-- On a finer grid a decimal has zeros at the end. -/
theorem exists_value_eq (h : e ≤ d.exponent) :
    ∃ k, d.value = value { digits := k, exponent := e } := by
  obtain ⟨zeros, hzeros⟩ := Int.eq_ofNat_of_zero_le (Int.sub_nonneg.mpr h)
  refine ⟨d.digits * 10 ^ zeros, ?_⟩
  have hexponent : d.exponent = zeros + e := by omega
  rw [value, value, hexponent, zpow_add₀ (by norm_num), zpow_natCast]
  push_cast
  ring

/-! Decimals and multiples of a magnitude are compared without fractions. -/

theorem num_mul_eq (d : Decimal) :
    ((d.num * unitsPerOne : Nat) : ℚ) = d.value * (d.den * unitsPerOne) := by
  have hden : (d.den : ℚ) ≠ 0 := Nat.cast_ne_zero.mpr d.den_pos.ne'
  rw [← num_div_den, Nat.cast_mul, ← mul_assoc, div_mul_cancel₀ _ hden]

theorem mul_units_eq (code a : Nat) (d : Decimal) :
    ((a * units code * d.den : Nat) : ℚ) =
      a * (exact code).value * (d.den * unitsPerOne) := by
  push_cast
  rw [← value_exact]
  ring

theorem den_mul_pos (d : Decimal) : (0 : ℚ) < d.den * unitsPerOne :=
  mul_pos (Nat.cast_pos.mpr d.den_pos) (Nat.cast_pos.mpr unitsPerOne_pos)

theorem num_mul_le_iff (a : Nat) :
    d.num * unitsPerOne ≤ a * units code * d.den ↔ d.value ≤ a * (exact code).value := by
  rw [← Nat.cast_le (α := ℚ), num_mul_eq, mul_units_eq, mul_le_mul_iff_left₀ (den_mul_pos d)]

theorem le_num_mul_iff (a : Nat) :
    a * units code * d.den ≤ d.num * unitsPerOne ↔ a * (exact code).value ≤ d.value := by
  rw [← Nat.cast_le (α := ℚ), num_mul_eq, mul_units_eq, mul_le_mul_iff_left₀ (den_mul_pos d)]

theorem le_digits_gridFloor_iff : k ≤ (gridFloor (units code) e).digits ↔
    value { digits := k, exponent := e } ≤ (exact code).value := by
  have hpos : 0 < unitsPerOne * Nat.pow 10 e.toNat :=
    Nat.mul_pos unitsPerOne_pos (Nat.pow_pos (by decide))
  have hiff := @num_mul_le_iff code { digits := k, exponent := e } 1
  rw [Nat.one_mul, Nat.cast_one, one_mul] at hiff
  rw [← hiff, gridFloor, Nat.le_div_iff_mul_le hpos, num, den, Nat.mul_assoc,
    Nat.mul_comm unitsPerOne]

theorem value_gridFloor_le : (gridFloor (units code) e).value ≤ (exact code).value :=
  le_digits_gridFloor_iff.mp (Nat.le_refl _)

theorem lt_value_gridNext : (exact code).value < (gridFloor (units code) e).gridNext.value := by
  rw [← not_le]
  intro hle
  exact Nat.not_succ_le_self _ (le_digits_gridFloor_iff.mpr hle)

/-! ### The number of digits before the point -/

/-- The length of a value is read off with some places more before the point, and these are
taken away again. -/
theorem exists_magnitude_eq : ∃ (shift : Nat) (places : Int),
    (∀ units, magnitude units =
      (digitsOf (units * Nat.pow 10 shift / unitsPerOne)).length - places) ∧
        places = shift ∧ shift = 28 * 11 + 16 :=
  ⟨_, _, fun _ => rfl, rfl, rfl⟩

theorem two_pow_le_ten_pow (n : Nat) : 2 ^ (93 * n + 51) ≤ 10 ^ (28 * n + 16) := by
  rw [Nat.pow_add, Nat.pow_add, Nat.pow_mul, Nat.pow_mul]
  exact Nat.mul_le_mul (Nat.pow_le_pow_left (by norm_num) n) (by norm_num)

/-- With so many places a unit has a digit before the point. -/
theorem unitsPerOne_le_pow {shift : Nat} (h : shift = 28 * 11 + 16) :
    unitsPerOne ≤ 10 ^ shift := by
  obtain ⟨places, hplaces, hunits⟩ := exists_unitsPerOne_eq
  obtain ⟨n, hplaces, hshift⟩ : ∃ n, places = 93 * n + 51 ∧ shift = 28 * n + 16 :=
    ⟨11, hplaces, h⟩
  rw [hunits, Nat.pow_eq, hplaces, hshift]
  exact two_pow_le_ten_pow n

theorem magnitude_spec (hne : code ≠ 0) :
    10 ^ (magnitude (units code) - 1) ≤ (exact code).value ∧
      (exact code).value < 10 ^ magnitude (units code) := by
  obtain ⟨shift, places, hmagnitude, rfl, hplaces⟩ := exists_magnitude_eq
  have hunits : (0 : ℚ) < unitsPerOne := Nat.cast_pos.mpr unitsPerOne_pos
  have hsome : 0 < units code := Nat.pos_of_ne_zero (mt units_eq_zero_iff.mp hne)
  have hpos : 0 < units code * Nat.pow 10 shift / unitsPerOne :=
    Nat.div_pos ((unitsPerOne_le_pow hplaces).trans (Nat.le_mul_of_pos_left _ hsome))
      unitsPerOne_pos
  have hlow := pow_le_of_digitsOf hpos
  have hhigh := lt_pow_length_digitsOf (units code * Nat.pow 10 shift / unitsPerOne)
  have hlength := List.length_pos_iff.mpr
    (digitsOf_ne_nil (units code * Nat.pow 10 shift / unitsPerOne))
  rw [hmagnitude]
  generalize (digitsOf (units code * Nat.pow 10 shift / unitsPerOne)).length = length at *
  rw [Nat.le_div_iff_mul_le unitsPerOne_pos, Nat.pow_eq] at hlow
  rw [Nat.div_lt_iff_lt_mul unitsPerOne_pos, Nat.pow_eq] at hhigh
  have hlow' : (10 : ℚ) ^ (length - 1) * unitsPerOne ≤
      (exact code).value * 10 ^ shift * unitsPerOne := by
    rw [mul_right_comm, value_exact]
    exact_mod_cast hlow
  have hhigh' : (exact code).value * 10 ^ shift * unitsPerOne <
      (10 : ℚ) ^ length * unitsPerOne := by
    rw [mul_right_comm, value_exact]
    exact_mod_cast hhigh
  have hcast : ((length : Int) - shift - 1) = (length - 1 : Nat) - (shift : Int) := by omega
  rw [hcast, zpow_sub₀ (by norm_num), zpow_sub₀ (by norm_num), zpow_natCast, zpow_natCast,
    zpow_natCast, div_le_iff₀ (by positivity), lt_div_iff₀ (by positivity)]
  exact ⟨le_of_mul_le_mul_right hlow' hunits, lt_of_mul_lt_mul_right hhigh' hunits.le⟩

/-! ### Neighbours on a grid -/

theorem value_pow (n : Nat) (e : Int) :
    value { digits := 10 ^ n, exponent := e } = 10 ^ (n + e) := by
  rw [value, zpow_add₀ (by norm_num), zpow_natCast]
  push_cast
  rfl

/-- A decimal that has no more digits is on the grid, or it has fewer before the point. -/
theorem on_grid_or_lt (p : Int) (hdigits : d.digits < 10 ^ m) :
    (∃ k, d.value = value { digits := k, exponent := p - m }) ∨ d.value < 10 ^ (p - 1) := by
  rcases le_or_gt (p - m) d.exponent with hcoarse | hfine
  · exact .inl (exists_value_eq hcoarse)
  · right
    calc d.value < 10 ^ m * 10 ^ d.exponent :=
          mul_lt_mul_of_pos_right (by exact_mod_cast hdigits) (zpow_pos (by norm_num) _)
      _ = 10 ^ (m + d.exponent) := by rw [zpow_add₀ (by norm_num), zpow_natCast]
      _ ≤ 10 ^ (p - 1) := zpow_le_zpow_right₀ (by norm_num) (by omega)

section Neighbours

variable {p : Int}

theorem gridFloor_digits_lt (h : (exact code).value < 10 ^ p) (m : Nat) :
    (gridFloor (units code) (p - m)).digits < 10 ^ m := by
  rw [← Nat.not_le, le_digits_gridFloor_iff, not_le, value_pow, add_sub_cancel]
  exact h

variable (hp : 10 ^ (p - 1) ≤ (exact code).value)

include hp

/-- The least value with so many digits before the point is on all grids. -/
theorem pow_le_gridFloor (hm : 0 < m) : 10 ^ (p - 1) ≤ (gridFloor (units code) (p - m)).value := by
  have hpow : (10 : ℚ) ^ (p - 1) = value { digits := 10 ^ (m - 1), exponent := p - m } := by
    rw [value_pow]
    congr 1
    omega
  rw [hpow] at hp ⊢
  exact value_le_value (le_digits_gridFloor_iff.mpr hp)

/-- The lower neighbour is the nearest from below. -/
theorem value_le_gridFloor (hm : 0 < m) (hdigits : d.digits < 10 ^ m)
    (h : d.value ≤ (exact code).value) : d.value ≤ (gridFloor (units code) (p - m)).value := by
  rcases on_grid_or_lt p hdigits with ⟨k, hk⟩ | hlt
  · rw [hk] at h ⊢
    exact value_le_value (le_digits_gridFloor_iff.mpr h)
  · exact hlt.le.trans (pow_le_gridFloor hp hm)

/-- The upper neighbour is the nearest from above. -/
theorem gridNext_le_value (hdigits : d.digits < 10 ^ m) (h : (exact code).value < d.value) :
    (gridFloor (units code) (p - m)).gridNext.value ≤ d.value := by
  rcases on_grid_or_lt p hdigits with ⟨k, hk⟩ | hlt
  · rw [hk] at h ⊢
    refine value_le_value (Nat.lt_of_not_le fun hle => ?_)
    exact absurd (le_digits_gridFloor_iff.mp hle) (not_le.mpr h)
  · exact absurd (hlt.trans_le hp) (not_lt.mpr h.le)

end Neighbours

/-! ### The nearer neighbour -/

/-- How far a decimal is from the magnitude of a code. -/
def distance (code : Nat) (d : Decimal) : ℚ := |d.value - (exact code).value|

theorem distance_gridFloor :
    distance code (gridFloor (units code) e) =
      (exact code).value - (gridFloor (units code) e).value := by
  rw [distance, abs_sub_comm, abs_of_nonneg (sub_nonneg.mpr value_gridFloor_le)]

theorem distance_gridNext :
    distance code (gridFloor (units code) e).gridNext =
      (gridFloor (units code) e).gridNext.value - (exact code).value := by
  rw [distance, abs_of_pos (sub_pos.mpr lt_value_gridNext)]

/-- The neighbours are as far apart as the grid is wide. -/
theorem distance_add_distance :
    distance code (gridFloor (units code) e) + distance code (gridFloor (units code) e).gridNext =
      10 ^ e := by
  rw [distance_gridFloor, distance_gridNext, value_gridNext, gridFloor]
  ring

/-- The middle between two neighbours, twice. -/
theorem value_middle (below : Decimal) :
    value { digits := 2 * below.digits + 1, exponent := below.exponent } =
      below.value + below.gridNext.value := by
  rw [value_gridNext, value, value]
  push_cast
  ring

theorem distance_nearer_le {below : Decimal} (h : below = gridFloor (units code) e) :
    distance code (nearer (units code) below) ≤ distance code below ∧
      distance code (nearer (units code) below) ≤ distance code below.gridNext := by
  have hbelow : distance code below = (exact code).value - below.value := h ▸ distance_gridFloor
  have hnext : distance code below.gridNext = below.gridNext.value - (exact code).value :=
    h ▸ distance_gridNext
  have hle := @num_mul_le_iff code { digits := 2 * below.digits + 1, exponent := below.exponent } 2
  have hge := @le_num_mul_iff code { digits := 2 * below.digits + 1, exponent := below.exponent } 2
  rw [value_middle, num, den] at hle hge
  -- The lower neighbour is taken up to the middle, and the upper one from there on.
  have hlower (h : 2 * units code * below.den ≤
      (2 * below.digits + 1) * Nat.pow 10 below.exponent.toNat * unitsPerOne) :
      distance code below ≤ distance code below.gridNext := by
    have := hge.mp h
    push_cast at this
    linarith
  have hupper (h : (2 * below.digits + 1) * Nat.pow 10 below.exponent.toNat * unitsPerOne ≤
      2 * units code * below.den) : distance code below.gridNext ≤ distance code below := by
    have := hle.mp h
    push_cast at this
    linarith
  unfold nearer
  dsimp only
  split_ifs with hlt hgt heven
  · exact ⟨le_refl _, hlower hlt.le⟩
  · exact ⟨hupper hgt.le, le_refl _⟩
  · exact ⟨le_refl _, hlower (Nat.le_of_not_lt hgt)⟩
  · exact ⟨hupper (Nat.le_of_not_lt hlt), le_refl _⟩

/-- An answer is one of the two neighbours. -/
theorem onGrid?_cases (h : onGrid? code e = some d) :
    d = gridFloor (units code) e ∨ d = (gridFloor (units code) e).gridNext := by
  unfold onGrid? at h
  dsimp only at h
  split at h
  · obtain rfl := Option.some.inj h
    exact nearer_cases _ _
  · exact .inl (Option.some.inj h).symm
  · exact .inr (Option.some.inj h).symm
  · contradiction

/-- A grid with a neighbour that is read as the code has an answer, which is not farther off. -/
theorem exists_onGrid?_le {below : Decimal} (hbelow : below = gridFloor (units code) e)
    (h : d = below ∨ d = below.gridNext) (hread : readsAs code d = true) :
    ∃ d', onGrid? code e = some d' ∧ distance code d' ≤ distance code d := by
  obtain ⟨hfloor, hnext⟩ := distance_nearer_le hbelow
  unfold onGrid?
  dsimp only
  rw [← hbelow]
  rcases h with rfl | rfl
  · cases hother : readsAs code d.gridNext <;> simp [hread, hfloor]
  · cases hother : readsAs code below <;> simp [hread, hnext]

/-- A decimal that is read as the code shows that the grid of so many digits has an answer, and
that it is not farther off. -/
theorem exists_onGrid?_of_readsAs {p : Int} (hp : 10 ^ (p - 1) ≤ (exact code).value) (hm : 0 < m)
    (hdigits : d.digits < 10 ^ m) (h : readsAs code d = true) :
    ∃ d', onGrid? code (p - m) = some d' ∧ distance code d' ≤ distance code d := by
  rcases le_or_gt d.value (exact code).value with hbelow | habove
  · have hle := value_le_gridFloor hp hm hdigits hbelow
    have hread := readsAs_of_between h (readsAs_exact code) hle value_gridFloor_le
    obtain ⟨d', hgrid, hnear⟩ := exists_onGrid?_le rfl (.inl rfl) hread
    refine ⟨d', hgrid, hnear.trans ?_⟩
    rw [distance_gridFloor, distance, abs_sub_comm, abs_of_nonneg (sub_nonneg.mpr hbelow)]
    exact sub_le_sub_left hle _
  · have hle := gridNext_le_value hp hdigits habove
    have hread := readsAs_of_between (readsAs_exact code) h lt_value_gridNext.le hle
    obtain ⟨d', hgrid, hnear⟩ := exists_onGrid?_le rfl (.inr rfl) hread
    refine ⟨d', hgrid, hnear.trans ?_⟩
    rw [distance_gridNext, distance, abs_of_pos (sub_pos.mpr habove)]
    exact sub_le_sub_right hle _

/-- On a fine grid one of the two neighbours is near enough. -/
theorem exists_onGrid?_of_fine (hne : code ≠ 0)
    (hfine : (10 : ℚ) ^ e * (4 * stretch) < 2 * (exact code).value) :
    ∃ d, onGrid? code e = some d := by
  have hsum := @distance_add_distance code e
  have hstretch : (0 : ℚ) ≤ 4 * stretch := mul_nonneg (by norm_num) (Nat.cast_nonneg _)
  have hread {d : Decimal} (h : distance code d ≤ 10 ^ e / 2) : readsAs code d = true := by
    refine readsAs_of_near hne ?_
    calc |d.value - (exact code).value| * (4 * stretch)
        ≤ 10 ^ e / 2 * (4 * stretch) := mul_le_mul_of_nonneg_right h hstretch
      _ < (exact code).value := by linarith
  rcases le_total (distance code (gridFloor (units code) e))
      (distance code (gridFloor (units code) e).gridNext) with hle | hle
  · have hfloor : distance code (gridFloor (units code) e) ≤ 10 ^ e / 2 := by linarith
    obtain ⟨d, hd, -⟩ := exists_onGrid?_le rfl (.inl rfl) (hread hfloor)
    exact ⟨d, hd⟩
  · have hnext : distance code (gridFloor (units code) e).gridNext ≤ 10 ^ e / 2 := by linarith
    obtain ⟨d, hd, -⟩ := exists_onGrid?_le rfl (.inr rfl) (hread hnext)
    exact ⟨d, hd⟩

/-- The grid of seventeen digits is fine. -/
theorem exists_onGrid?_seventeen {p : Int} (hne : code ≠ 0)
    (hp : 10 ^ (p - 1) ≤ (exact code).value) : ∃ d, onGrid? code (p - 17) = some d := by
  refine exists_onGrid?_of_fine hne ?_
  have hwidth : (10 : ℚ) ^ (p - 17) * 10 ^ (16 : Int) = 10 ^ (p - 1) := by
    rw [← zpow_add₀ (by norm_num)]
    congr 1
    omega
  have hstretch : (4 * stretch : ℚ) < 2 * 10 ^ (16 : Int) := by
    norm_num [stretch]
  calc (10 : ℚ) ^ (p - 17) * (4 * stretch)
      < 10 ^ (p - 17) * (2 * 10 ^ (16 : Int)) :=
        mul_lt_mul_of_pos_left hstretch (zpow_pos (by norm_num) _)
    _ = 2 * 10 ^ (p - 1) := by rw [← hwidth]; ring
    _ ≤ 2 * (exact code).value := mul_le_mul_of_nonneg_left hp zero_le_two

/-! ### The search -/

theorem mem_of_range_eq_append {count m place : Nat} {before after : List Nat}
    (h : List.range count = before ++ place :: after) (hm : m < place) : m ∈ before := by
  have hordered : (before ++ place :: after).Pairwise (· < ·) := h ▸ List.pairwise_lt_range
  have hplace : place ∈ List.range count := h ▸ by simp
  have hmem : m ∈ before ++ place :: after :=
    h ▸ List.mem_range.mpr (hm.trans (List.mem_range.mp hplace))
  rcases List.mem_append.mp hmem with hbefore | hafter
  · exact hbefore
  · have htail := List.pairwise_append.mp hordered |>.2.1
    rcases List.mem_cons.mp hafter with rfl | hafter
    · omega
    · have := List.rel_of_pairwise_cons htail hafter
      omega

/-- The search ends with the first grid that has an answer, if there is one. -/
theorem exists_first_grid {n : Nat} (hn : n < 17)
    (h : ∃ d, onGrid? code (magnitude (units code) - (n + 1)) = some d) :
    ∃ place d, place ≤ n ∧ shortest code = d.normalize ∧
      onGrid? code (magnitude (units code) - (place + 1)) = some d ∧
        ∀ m < place, onGrid? code (magnitude (units code) - (m + 1)) = none := by
  obtain ⟨answer, hanswer⟩ := h
  unfold shortest
  dsimp only
  generalize hfound : (List.range 17).findSome? _ = found
  cases found with
  | none =>
      have hnone := List.findSome?_eq_none_iff.mp hfound n (List.mem_range.mpr hn)
      rw [hanswer] at hnone
      contradiction
  | some d =>
      obtain ⟨before, place, after, hrange, hfirst, hbefore⟩ :=
        List.findSome?_eq_some_iff.mp hfound
      refine ⟨place, d, ?_, rfl, hfirst, fun m hm =>
        hbefore m (mem_of_range_eq_append hrange hm)⟩
      by_contra hlt
      rw [hbefore n (mem_of_range_eq_append hrange (Nat.lt_of_not_le hlt))] at hanswer
      contradiction

theorem normalize_digits_lt (hm : 0 < m) (h : d.digits ≤ 10 ^ m) : d.normalize.digits < 10 ^ m := by
  fun_induction normalize d with
  | case1 d hzero ih => exact ih ((Nat.div_le_self _ _).trans h)
  | case2 d hzero =>
      refine lt_of_le_of_ne h fun heq => hzero ?_
      obtain ⟨n, rfl⟩ := Nat.exists_eq_succ_of_ne_zero hm.ne'
      rw [heq, Nat.pow_succ, Nat.mul_mod_left]
      exact ⟨(Nat.mul_pos (Nat.pow_pos (by decide)) (by decide)).ne', rfl⟩

/-- An answer has no more digits than its grid, but for zeros at the end. -/
theorem length_digits_normalize_le {p : Int} (hp : (exact code).value < 10 ^ p) (hm : 0 < m)
    (h : onGrid? code (p - m) = some d) : (digitsOf d.normalize.digits).length ≤ m := by
  have hfloor := gridFloor_digits_lt hp m
  have hdigits : d.digits ≤ 10 ^ m := by
    rcases onGrid?_cases h with rfl | rfl
    · exact hfloor.le
    · exact hfloor
  exact Nat.toDigits_length 10 _ m hm (normalize_digits_lt hm hdigits)

/-- A decimal identifies a code, no decimal with fewer digits does, and none with as many is nearer
to its value. -/
structure IsShortest (code : Nat) (d : Decimal) : Prop where
  code_eq : d.code = code
  length_le : ∀ {d' : Decimal}, d'.code = code →
    (digitsOf d.digits).length ≤ (digitsOf d'.digits).length
  distance_le : ∀ {d' : Decimal}, d'.code = code →
    (digitsOf d'.digits).length = (digitsOf d.digits).length → distance code d ≤ distance code d'

theorem fewest_of_readsAs (hne : code ≠ 0) (h : readsAs code d = true) :
    (digitsOf (shortest code).digits).length ≤ (digitsOf d.digits).length ∧
      ((digitsOf d.digits).length = (digitsOf (shortest code).digits).length →
        distance code (shortest code) ≤ distance code d) := by
  obtain ⟨hlow, hhigh⟩ := magnitude_spec hne
  obtain ⟨place, found, -, hshortest, hgrid, hbefore⟩ :=
    exists_first_grid (n := 16) (by decide) (exists_onGrid?_seventeen hne hlow)
  have hlength : 0 < (digitsOf d.digits).length := List.length_pos_iff.mpr (digitsOf_ne_nil _)
  obtain ⟨m, hm⟩ : ∃ m, (digitsOf d.digits).length = m + 1 := ⟨_, (Nat.sub_add_cancel hlength).symm⟩
  have hdigits : d.digits < 10 ^ (m + 1) := hm ▸ lt_pow_length_digitsOf d.digits
  obtain ⟨d', hd', hnear⟩ := exists_onGrid?_of_readsAs hlow (Nat.succ_pos m) hdigits h
  have hfewest : (digitsOf (shortest code).digits).length ≤ place + 1 :=
    hshortest ▸ length_digits_normalize_le hhigh (Nat.succ_pos place) hgrid
  have hplace : place ≤ m := by
    by_contra hlt
    rw [Nat.cast_succ, hbefore m (Nat.lt_of_not_le hlt)] at hd'
    contradiction
  rw [hm]
  refine ⟨hfewest.trans (Nat.succ_le_succ hplace), fun heq => ?_⟩
  obtain rfl : m = place := Nat.le_antisymm (by omega) hplace
  obtain rfl : found = d' := Option.some.inj (hgrid.symm.trans hd')
  rw [hshortest, distance, value_normalize]
  exact hnear

theorem isShortest_shortest (hne : code ≠ 0) (hcode : code < infinity) :
    IsShortest code (shortest code) where
  code_eq := code_shortest hcode
  length_le h := (fewest_of_readsAs hne (readsAs_of_code hcode h)).1
  distance_le h := (fewest_of_readsAs hne (readsAs_of_code hcode h)).2

end Decimal

end MiniLox
