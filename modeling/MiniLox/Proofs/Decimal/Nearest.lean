import Mathlib.Algebra.Order.Ring.Nat
import Mathlib.Order.Monotone.Basic
import Mathlib.Tactic.Ring
import MiniLox.Decimal.Basic

/-!
Rounding finds the code that a fraction lies around. The magnitudes of the codes
increase, the search finds the greatest one that fits, and of the two neighbours
of a fraction the one is taken whose interval the fraction lies in. So a fraction
that a finite code surrounds rounds to that code.
-/

namespace MiniLox.Binary64

variable {num den code : Nat}

/-! ### The magnitudes of the codes -/

theorem stretch_pos : 0 < stretch := by decide

theorem units_zero : units 0 = 0 := rfl

theorem units_of_lt (h : code < stretch) : units code = code := if_pos h

theorem units_of_ge (h : stretch ≤ code) :
    units code = (stretch + code % stretch) * 2 ^ (code / stretch - 1) :=
  if_neg (Nat.not_lt.mpr h)

/-- The codes of a later stretch. -/
theorem units_stretch_mul_add {place : Nat} (h : place < stretch) (later : Nat) :
    units (stretch * (later + 1) + place) = (stretch + place) * 2 ^ later := by
  have hge : stretch ≤ stretch * (later + 1) + place :=
    Nat.le_trans (Nat.le_mul_of_pos_right stretch (Nat.succ_pos later)) (Nat.le_add_right _ _)
  rw [units_of_ge hge, Nat.mul_add_mod, Nat.mod_eq_of_lt h, Nat.mul_add_div stretch_pos,
    Nat.div_eq_of_lt h, Nat.add_zero, Nat.add_sub_cancel]

/-- The codes of one stretch are equally far apart. -/
theorem units_succ (code : Nat) : units (code + 1) = units code + 2 ^ (code / stretch - 1) := by
  rcases Nat.lt_or_ge code stretch with hfirst | hlater
  · rw [units_of_lt hfirst, Nat.div_eq_of_lt hfirst]
    rcases Nat.lt_or_ge (code + 1) stretch with hin | hout
    · exact units_of_lt hin
    · have hcode : code + 1 = stretch * (0 + 1) + 0 := by omega
      rw [hcode, units_stretch_mul_add stretch_pos]
      omega
  · obtain ⟨later, place, hplace, rfl⟩ :
        ∃ later place, place < stretch ∧ code = stretch * (later + 1) + place := by
      refine ⟨code / stretch - 1, code % stretch, Nat.mod_lt code stretch_pos, ?_⟩
      rw [Nat.sub_add_cancel (Nat.div_pos hlater stretch_pos), Nat.div_add_mod]
    have hgap : (stretch * (later + 1) + place) / stretch - 1 = later := by
      rw [Nat.mul_add_div stretch_pos, Nat.div_eq_of_lt hplace, Nat.add_zero, Nat.add_sub_cancel]
    rw [hgap, units_stretch_mul_add hplace]
    rcases Nat.lt_or_ge (place + 1) stretch with hin | hout
    · rw [Nat.add_assoc, units_stretch_mul_add hin, ← Nat.add_assoc, Nat.succ_mul]
    · -- The first code of the next stretch is twice as far from zero as that of this one.
      have hlast : place + 1 = stretch := by omega
      have hnext : stretch * (later + 1) + place + 1 = stretch * (later + 1 + 1) := by
        rw [Nat.add_assoc, hlast, ← Nat.mul_succ]
      have hunits : units (stretch * (later + 1 + 1)) = stretch * 2 ^ (later + 1) :=
        units_stretch_mul_add stretch_pos (later + 1)
      rw [hnext, hunits, ← Nat.succ_mul, Nat.succ_eq_add_one, Nat.add_assoc, hlast, Nat.pow_succ]
      ring

theorem units_strictMono : StrictMono units :=
  strictMono_nat_of_lt_succ fun code => by
    rw [units_succ]
    exact Nat.lt_add_of_pos_right (Nat.two_pow_pos _)

/-! ### The search -/

/-- The search ends at a number that fits in front of one that does not. -/
theorem greatest_spec {fits : Nat → Bool} {bits found : Nat} (hfound : fits found = true)
    (hend : fits (found + 2 ^ bits) = false) :
    fits (greatest fits bits found) = true ∧ fits (greatest fits bits found + 1) = false := by
  induction bits generalizing found with
  | zero => exact ⟨hfound, hend⟩
  | succ bits ih =>
      rw [greatest, Nat.pow_eq]
      split
      · next hfits =>
          refine ih hfits ?_
          rwa [Nat.add_assoc, ← Nat.two_mul, ← Nat.pow_succ']
      · next hfits => exact ih hfound (Bool.eq_false_iff.mpr hfits)

/-- The greatest code whose magnitude the fraction reaches. -/
theorem floorCode_spec (num den : Nat) :
    floorCode num den ≤ infinity ∧ units (floorCode num den) * den ≤ num * unitsPerOne ∧
      (floorCode num den = infinity ∨
        num * unitsPerOne < units (floorCode num den + 1) * den) := by
  obtain ⟨hfits, hnext⟩ := @greatest_spec
    (fun code => decide (code ≤ infinity) && decide (units code * den ≤ num * unitsPerOne)) 63 0
    (by simp [units_zero]) (by simp [infinity])
  rw [← floorCode] at hfits hnext
  simp only [Bool.and_eq_true, decide_eq_true_eq] at hfits
  simp only [Bool.and_eq_false_iff, decide_eq_false_iff_not] at hnext
  refine ⟨hfits.1, hfits.2, ?_⟩
  rcases hnext with hnext | hnext
  · left
    omega
  · right
    omega

theorem floorCode_le (num den : Nat) : floorCode num den ≤ infinity := (floorCode_spec num den).1

theorem nearest_le (num den : Nat) : nearest num den ≤ infinity := by
  have hfloor := floorCode_le num den
  unfold nearest
  dsimp only
  split_ifs <;> omega

/-- A fraction rounds to the finite code that it lies around. -/
theorem nearest_of_surrounds (hden : 0 < den) (hcode : code < infinity)
    (h : Surrounds num den code) : nearest num den = code := by
  obtain ⟨hle, hbelow, habove⟩ := floorCode_spec num den
  have hlow : (units (code - 1) + units code) * den ≤ 2 * (num * unitsPerOne) := by
    unfold Surrounds at h
    split at h <;> omega
  have hhigh : 2 * (num * unitsPerOne) ≤ (units code + units (code + 1)) * den := by
    unfold Surrounds at h
    split at h <;> omega
  have hscaled {a b : Nat} (hab : a ≤ b) : units a * den ≤ units b * den :=
    Nat.mul_le_mul_right den (units_strictMono.monotone hab)
  have hgap {a b : Nat} (hab : a < b) : units a * den < units b * den :=
    Nat.mul_lt_mul_of_pos_right (units_strictMono hab) hden
  -- The code below the fraction is this one or the one in front of it.
  have hupper : floorCode num den ≤ code := by
    by_contra hgt
    have h1 := hscaled (show code + 1 ≤ floorCode num den by omega)
    have h2 := hgap (show code < code + 1 by omega)
    rw [Nat.add_mul] at hhigh
    omega
  have hlower : code ≤ floorCode num den + 1 := by
    by_contra hgt
    have h1 := habove.resolve_left (by omega)
    have h2 := hscaled (show floorCode num den + 1 ≤ code - 1 by omega)
    have h3 := hgap (show code - 1 < code by omega)
    rw [Nat.add_mul] at hlow
    omega
  unfold Surrounds at h
  unfold nearest
  dsimp only
  rcases Nat.lt_or_ge (floorCode num den) code with hlt | hge
  · have hfloor : floorCode num den = code - 1 := by omega
    have hback : code - 1 + 1 = code := by omega
    rw [hfloor, if_neg (by omega), hback]
    split_ifs at h ⊢ <;> omega
  · have hfloor : floorCode num den = code := by omega
    rw [hfloor, if_neg (by omega)]
    split_ifs at h ⊢ <;> omega

/-- The lower neighbour of a fraction up to the middle, which is for even codes. -/
theorem surrounds_of_le_middle (hle : units code * den ≤ num * unitsPerOne)
    (h : 2 * (num * unitsPerOne) < (units code + units (code + 1)) * den ∨
      2 * (num * unitsPerOne) = (units code + units (code + 1)) * den ∧ code % 2 = 0)
    (hden : 0 < den) : Surrounds num den code := by
  have hbefore : units (code - 1) * den ≤ units code * den :=
    Nat.mul_le_mul_right den (units_strictMono.monotone (Nat.sub_le code 1))
  unfold Surrounds
  dsimp only
  rw [Nat.add_mul (units (code - 1))]
  split
  · omega
  · next hodd =>
      have hstrict : units (code - 1) * den < units code * den :=
        Nat.mul_lt_mul_of_pos_right (units_strictMono (by omega)) hden
      omega

/-- The upper neighbour of a fraction from the middle on. -/
theorem surrounds_of_middle_le (hlt : num * unitsPerOne < units (code + 1) * den)
    (h : (units code + units (code + 1)) * den < 2 * (num * unitsPerOne) ∨
      2 * (num * unitsPerOne) = (units code + units (code + 1)) * den ∧ (code + 1) % 2 = 0)
    (hden : 0 < den) : Surrounds num den (code + 1) := by
  have hafter : units (code + 1) * den < units (code + 1 + 1) * den :=
    Nat.mul_lt_mul_of_pos_right (units_strictMono (Nat.lt_succ_self _)) hden
  unfold Surrounds
  dsimp only
  rw [Nat.add_sub_cancel, Nat.add_mul (units (code + 1))]
  split <;> omega

/-- A fraction lies around the finite code that it rounds to. -/
theorem surrounds_of_nearest (h : nearest num den = code) (hden : 0 < den)
    (hcode : code < infinity) : Surrounds num den code := by
  have hspec := (floorCode_spec num den).2
  unfold nearest at h
  generalize floorCode num den = below at h hspec
  obtain ⟨hle, hnext⟩ := hspec
  dsimp only at h
  split_ifs at h with hfinite hbelow habove heven <;> subst h
  · exact absurd hfinite hcode.ne
  · exact surrounds_of_le_middle hle (.inl hbelow) hden
  · exact surrounds_of_middle_le (hnext.resolve_left hfinite) (.inl habove) hden
  · have hmiddle := Nat.le_antisymm (Nat.le_of_not_lt habove) (Nat.le_of_not_lt hbelow)
    exact surrounds_of_le_middle hle (.inr ⟨hmiddle, heven⟩) hden
  · have hmiddle := Nat.le_antisymm (Nat.le_of_not_lt habove) (Nat.le_of_not_lt hbelow)
    exact surrounds_of_middle_le (hnext.resolve_left hfinite) (.inr ⟨hmiddle, by omega⟩) hden

end MiniLox.Binary64
