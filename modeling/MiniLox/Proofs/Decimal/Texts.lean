import Mathlib.Algebra.Order.Field.Rat
import Mathlib.Tactic.Linarith
import Mathlib.Tactic.Ring
import MiniLox.Value
import MiniLox.Proofs.Decimal.Reading
import MiniLox.Proofs.Decimal.Signs

/-!
The texts of numbers and what they stand for. The text of a finite number is that
of its magnitude, with the sign in front; whichever of the ways to write it is
taken, it is read as a decimal that rounds to the magnitude. So no two magnitudes
have a text in common.
-/

namespace MiniLox

namespace Binary64

variable {num den code : Nat}

/-- The number of units in one is a power, which is not to be computed. -/
theorem exists_unitsPerOne_eq : ∃ places, places = 1074 ∧ unitsPerOne = Nat.pow 2 places := by
  refine ⟨1074, rfl, ?_⟩
  unfold unitsPerOne
  rfl

theorem unitsPerOne_pos : 0 < unitsPerOne := by
  obtain ⟨places, -, hunits⟩ := exists_unitsPerOne_eq
  rw [hunits]
  exact Nat.two_pow_pos places

theorem Surrounds.le_twice (h : Surrounds num den code) (hden : 0 < den) :
    ((units (code - 1) + units code : Nat) : ℚ) ≤ twice num den := by
  rw [le_twice_iff hden]
  unfold Surrounds at h
  split at h <;> omega

theorem Surrounds.twice_le (h : Surrounds num den code) (hden : 0 < den) :
    twice num den ≤ ((units code + units (code + 1) : Nat) : ℚ) := by
  rw [twice_le_iff hden]
  unfold Surrounds at h
  split at h <;> omega

end Binary64

namespace Decimal

open Binary64

variable {d : Decimal} {code code' : Nat}

theorem twice_num_den (d : Decimal) : twice d.num d.den = 2 * (d.value * unitsPerOne) := by
  rw [twice, num_div_den]

/-- A decimal that is read as a code is below what a greater code stands for. -/
theorem value_lt_of_readsAs (h : readsAs code d = true) (hlt : code < code') {bound : ℚ}
    (hbound : (units code' : ℚ) ≤ bound * unitsPerOne) : d.value < bound := by
  have hunits : (0 : ℚ) < unitsPerOne := Nat.cast_pos.mpr unitsPerOne_pos
  have hle := (of_decide_eq_true h).twice_le d.den_pos
  rw [twice_num_den] at hle
  have hcode : units code + units (code + 1) < 2 * units code' := by
    have h1 := units_strictMono hlt
    have h2 := units_strictMono.monotone (show code + 1 ≤ code' by omega)
    omega
  have hcast : ((units code + units (code + 1) : Nat) : ℚ) < 2 * units code' := by
    exact_mod_cast hcode
  have hscaled : d.value * unitsPerOne < bound * unitsPerOne := by linarith
  exact lt_of_mul_lt_mul_right hscaled hunits.le

/-- Decimals are in the order of the codes as which they are read. -/
theorem value_le_of_readsAs {d' : Decimal} (h : readsAs code d = true)
    (h' : readsAs code' d' = true) (hlt : code < code') : d.value ≤ d'.value := by
  have hunits : (0 : ℚ) < unitsPerOne := Nat.cast_pos.mpr unitsPerOne_pos
  have hhigh := (of_decide_eq_true h).twice_le d.den_pos
  have hlow := (of_decide_eq_true h').le_twice d'.den_pos
  rw [twice_num_den] at hhigh hlow
  have hgap : units code + units (code + 1) ≤ units (code' - 1) + units code' := by
    have h1 := units_strictMono.monotone (show code ≤ code' - 1 by omega)
    have h2 := units_strictMono.monotone (show code + 1 ≤ code' by omega)
    omega
  have hcast : ((units code + units (code + 1) : Nat) : ℚ) ≤
      ((units (code' - 1) + units code' : Nat) : ℚ) := Nat.cast_le.mpr hgap
  have hscaled : d.value * unitsPerOne ≤ d'.value * unitsPerOne := by linarith
  exact le_of_mul_le_mul_right hscaled hunits

theorem value_shortest_mono (h : code ≤ code') :
    (shortest code).value ≤ (shortest code').value := by
  rcases Nat.eq_or_lt_of_le h with rfl | hlt
  · exact le_refl _
  · exact value_le_of_readsAs (readsAs_shortest code) (readsAs_shortest code') hlt

end Decimal

namespace Binary64

open Decimal

variable {code : Nat} {u : List Char} {x y : Float}

/-- The ways to write a finite magnitude: as a whole number, as the zero of a negative number,
or as its shortest decimal. -/
inductive Writes (code : Nat) : List Char → Prop where
  | whole {n : Nat} (h : units code = n * unitsPerOne) : Writes code (digitsOf n)
  | zero (h : code = 0) : Writes code ['0', '.', '0']
  | shortest (h : code ≠ 0) : Writes code (shortest code).layout

/-- What is written is read as the magnitude. -/
theorem Writes.readsAs_read (h : Writes code u) : readsAs code (read u) = true := by
  cases h with
  | @whole n h =>
      rw [read_digits fun c hc => isDigit_of_mem_digitsOf hc,
        digits_ofDigits_digitsOf (List.append_nil _)]
      exact readsAs_whole h
  | zero h =>
      have hdigits : ∀ c ∈ ['0'] ++ ['0'], Lexeme.isDigit c = true := by simp [Lexeme.isDigit]
      have hread : read ['0', '.', '0'] = ofDigits ['0'] ['0'] := read_point hdigits
      have hwhole : units code = 0 * unitsPerOne := by rw [h, units_zero, Nat.zero_mul]
      have hvalue : value { digits := 0, exponent := 0 } = (ofDigits ['0'] ['0']).value :=
        (zero_mul _).trans (zero_mul _).symm
      rw [hread]
      exact readsAs_of_value_eq (readsAs_whole hwhole) hvalue
  | shortest h => exact readsAs_of_value_eq (readsAs_shortest code) (value_read_layout _).symm

/-- A text writes one magnitude only. -/
theorem Writes.code_eq {code' : Nat} (h : Writes code u) (h' : Writes code' u)
    (hcode : code < infinity) (hcode' : code' < infinity) : code = code' :=
  (code_of_readsAs hcode h.readsAs_read).symm.trans (code_of_readsAs hcode' h'.readsAs_read)

theorem writes_text (h : codeOf x < infinity) : ∃ u, text x = signed (isNegative x) u ∧
    Writes (codeOf x) u := by
  unfold text
  dsimp only
  rw [if_neg (by omega), if_neg (by omega)]
  split
  · next hzero => exact ⟨_, rfl, .zero hzero⟩
  · next hzero => exact ⟨_, rfl, .shortest hzero⟩

theorem toList_toString_natCast (n : Nat) : (toString (n : Int)).toList = digitsOf n := by
  rw [Int.toString_eq_repr, Int.repr_eq_if, if_pos (Int.natCast_nonneg n), Int.toNat_natCast,
    Nat.repr_eq_ofList_toDigits, String.toList_ofList]
  rfl

theorem toList_toString_neg_natCast {n : Nat} (h : 0 < n) :
    (toString (-(n : Int))).toList = '-' :: digitsOf n := by
  rw [Int.toString_eq_repr, Int.repr_eq_if, if_neg (by omega), neg_neg, Int.toNat_natCast,
    String.toList_append, Nat.repr_eq_ofList_toDigits, @String.toList_ofList (Nat.toDigits 10 n)]
  rfl

/-- A whole number but a negative zero is written as its sign and its digits. -/
theorem toList_toString_signed {n : Nat} {negative : Bool} (h : negative = true → 0 < n) :
    (toString (if negative then -(n : Int) else n)).toList = signed negative (digitsOf n) := by
  cases negative with
  | false => exact toList_toString_natCast n
  | true => exact toList_toString_neg_natCast (h rfl)

theorem units_eq_zero_iff : units code = 0 ↔ code = 0 := by
  refine ⟨fun h => units_strictMono.injective (h.trans units_zero.symm), ?_⟩
  rintro rfl
  exact units_zero

/-- A number that is whole has a digit unless it is zero. -/
theorem pos_of_whole {n : Nat} (h : units code = n * unitsPerOne) (hcode : code ≠ 0) : 0 < n := by
  refine Nat.pos_of_ne_zero fun hzero => hcode (units_eq_zero_iff.mp ?_)
  rw [h, hzero, Nat.zero_mul]

/-- A whole number has its digits as its text. -/
theorem writes_integer? {n : Int} (h : integer? x = some n) :
    ∃ u, (toString n).toList = signed (isNegative x) u ∧ Writes (codeOf x) u := by
  unfold integer? at h
  dsimp only at h
  split at h
  · next hwhole =>
      obtain ⟨hdivides, -, hpositive⟩ := hwhole
      have hunits : units (codeOf x) = units (codeOf x) / unitsPerOne * unitsPerOne :=
        (Nat.div_mul_cancel (Nat.dvd_of_mod_eq_zero hdivides)).symm
      refine ⟨digitsOf (units (codeOf x) / unitsPerOne), ?_, .whole hunits⟩
      rw [← Option.some.inj h, ← Int.natCast_ediv]
      exact toList_toString_signed fun hsign =>
        pos_of_whole hunits fun hzero => hpositive ⟨hsign, hzero⟩
  · contradiction

/-- A finite number is written as its sign and its magnitude. -/
theorem exists_toList_text_eq (h : codeOf x < infinity) :
    ∃ u, (Value.number x).text.toList = signed (isNegative x) u ∧ Writes (codeOf x) u := by
  cases hinteger : integer? x with
  | some n =>
      have htext : (Value.number x).text = toString n := by rw [Value.text, hinteger]
      rw [htext]
      exact writes_integer? hinteger
  | none =>
      have htext : (Value.number x).text = String.ofList (text x) := by
        rw [Value.text, hinteger]
      obtain ⟨u, hu, hwrites⟩ := writes_text h
      exact ⟨u, by rw [htext, String.toList_ofList, hu], hwrites⟩

/-- What is written begins with a digit. -/
theorem Writes.exists_eq_cons (h : Writes code u) : ∃ c cs, u = c :: cs ∧
    Lexeme.isDigit c = true ∧ ∀ c ∈ cs, isNumeralPart c = true := by
  cases h with
  | @whole n h =>
      obtain ⟨c, cs, hdigits⟩ := List.exists_cons_of_ne_nil (digitsOf_ne_nil n)
      have hall : ∀ d ∈ c :: cs, Lexeme.isDigit d = true := by
        rw [← hdigits]
        exact fun d hd => isDigit_of_mem_digitsOf hd
      obtain ⟨hc, hcs⟩ := List.forall_mem_cons.mp hall
      exact ⟨c, cs, hdigits, hc, fun d hd => isNumeralPart_of_isDigit (hcs d hd)⟩
  | zero h => exact ⟨'0', ['.', '0'], rfl, by decide, by simp [isNumeralPart, Lexeme.isDigit]⟩
  | shortest h => exact exists_layout_eq_cons _

/-- A finite number without a sign has the text of its magnitude. -/
theorem writes_toList_text (h : code < infinity) :
    Writes code (Value.number (ofCode .positive code)).text.toList := by
  have hcode : codeOf (ofCode .positive code) = code := codeOf_ofCode h.le
  have hsign : isNegative (ofCode .positive code) = false := isNegative_ofCode h.le
  obtain ⟨u, htext, hwrites⟩ := exists_toList_text_eq (hcode.symm ▸ h)
  rw [htext, hsign]
  rwa [hcode] at hwrites

/-! ### Numbers without an exponent -/

/-- The code of `10 ^ -4`, rounded. -/
def pointLeast : Nat := 0x3F1A36E2EB1C432D

/-- The code of `10 ^ 16`. -/
def pointLimit : Nat := 0x4341C37937E08000

theorem ofCode_zero : ofCode .positive 0 = 0 := Float.toBits_inj.mp (by decide +kernel)

theorem ofCode_negative_zero : ofCode .negative 0 = -0 := by
  rw [← ofCode_zero, neg_ofCode (Nat.zero_le _)]
  rfl

theorem ofCode_pointLeast : ofCode .positive pointLeast = 1e-4 :=
  Float.toBits_inj.mp (by decide +kernel)

theorem ofCode_pointLimit : ofCode .positive pointLimit = 1e16 :=
  Float.toBits_inj.mp (by decide +kernel)

/-- The number is zero, or it has a magnitude that is written with a point. -/
def Pointed (code : Nat) : Prop := code = 0 ∨ pointLeast ≤ code ∧ code < pointLimit

theorem Pointed.lt_infinity (h : Pointed code) : code < infinity := by
  have hlimit : pointLimit < infinity := by decide
  have hzero : 0 < infinity := by decide
  rcases h with rfl | ⟨-, hlt⟩
  · exact hzero
  · omega

theorem codeOf_pointed (h : x = 0 ∨ x = -0 ∨ ((1e-4 : Float) ≤ x.abs ∧ x.abs < 1e16)) :
    Pointed (codeOf x) := by
  rcases h with rfl | rfl | ⟨hleast, hlimit⟩
  · exact .inl (ofCode_zero ▸ codeOf_ofCode (Nat.zero_le _))
  · exact .inl (ofCode_negative_zero ▸ codeOf_ofCode (Nat.zero_le _))
  · have hcode := codeOf_le_of_abs_lt hlimit
    have habs : x.abs = ofCode .positive (codeOf x) := by
      conv_lhs => rw [← ofCode_codeOf x]
      exact abs_ofCode hcode
    rw [habs, ← ofCode_pointLeast] at hleast
    rw [habs, ← ofCode_pointLimit] at hlimit
    exact .inr ⟨le_of_ofCode_le (by decide) hcode hleast, lt_of_ofCode_lt hcode (by decide) hlimit⟩

/-- The least of them is no exact power of ten, but its shortest decimal is. -/
theorem shortest_pointLeast : shortest pointLeast = { digits := 1, exponent := -4 } := by
  decide +kernel

theorem units_pointLimit : units pointLimit = 10 ^ 16 * unitsPerOne := by
  obtain ⟨places, hplaces, hunits⟩ := exists_unitsPerOne_eq
  have hmantissa : stretch + (5 * 10 ^ 15 - stretch) = 5 * 10 ^ 15 := by decide
  have hlimit : pointLimit = stretch * (places + 1 + 1) + (5 * 10 ^ 15 - stretch) := by
    rw [hplaces]
    rfl
  rw [hlimit, units_stretch_mul_add (by decide), hmantissa, hunits, Nat.pow_eq]
  ring

theorem units_lt_limit_iff : units code < integerLimit * unitsPerOne ↔ code < pointLimit := by
  have hlimit : integerLimit = 10 ^ 16 := rfl
  rw [hlimit, ← units_pointLimit, units_strictMono.lt_iff_lt]

/-- From the limit on no number is written as an integer. -/
theorem integer?_eq_none_of_le (h : pointLimit ≤ codeOf x) : integer? x = none := by
  unfold integer?
  dsimp only
  exact if_neg fun hwhole => Nat.not_lt.mpr h (units_lt_limit_iff.mp hwhole.2.1)

theorem toList_text_of_integer? (h : integer? x = none) :
    (Value.number x).text.toList = text x := by
  have htext : (Value.number x).text = String.ofList (text x) := by rw [Value.text, h]
  rw [htext, String.toList_ofList]

/-- Infinity is written as a word. -/
theorem toList_text_of_infinity (h : codeOf x = infinity) :
    (Value.number x).text.toList = signed (isNegative x) ['i', 'n', 'f'] := by
  have hlarge : pointLimit ≤ codeOf x := by
    rw [h]
    decide
  rw [toList_text_of_integer? (integer?_eq_none_of_le hlarge)]
  unfold text
  dsimp only
  rw [if_neg (Nat.not_lt.mpr h.le), if_pos h]

theorem text_infinity : (Value.number (ofCode .positive infinity)).text = "inf" := by
  have hle : infinity ≤ infinity := Nat.le_refl infinity
  rw [← String.toList_inj, toList_text_of_infinity (codeOf_ofCode hle), isNegative_ofCode hle]
  rfl

theorem value_lt_of_lt_pointLimit {d : Decimal} (h : readsAs code d = true)
    (hlimit : code < pointLimit) : d.value < 10 ^ 16 := by
  refine value_lt_of_readsAs h hlimit ?_
  exact_mod_cast units_pointLimit.le

theorem layout_shortest (hleast : pointLeast ≤ code) (hlimit : code < pointLimit) :
    (shortest code).layout = (shortest code).positional := by
  have hlow : (10 : ℚ) ^ (-4 : Int) ≤ (shortest pointLeast).value := by
    rw [shortest_pointLeast]
    norm_num [value]
  have hhigh := value_lt_of_lt_pointLimit (readsAs_shortest code) hlimit
  exact layout_eq_positional (hlow.trans (value_shortest_mono hleast)) (by exact_mod_cast hhigh)

theorem numeral_eq {whole fraction : List Char}
    (h : readsAs code (ofDigits whole fraction) = true) (hcode : code < infinity) :
    Lexeme.numeral whole fraction =
      .token .number (some (.number (ofCode .positive code))) := by
  have hfloat : (ofDigits whole fraction).toFloat =
      ofCode .positive (ofDigits whole fraction).code := rfl
  rw [Lexeme.numeral, hfloat, code_of_readsAs hcode h]

/-- A magnitude with a point is written as a numeral. -/
theorem Writes.spells (h : Writes code u) (hpointed : Pointed code) :
    (Lexeme.token .number (some (.number (ofCode .positive code)))).Spells u := by
  have hread := h.readsAs_read
  cases h with
  | @whole n h =>
      have hdigits : ∀ c ∈ digitsOf n, Lexeme.isDigit c = true :=
        fun c hc => isDigit_of_mem_digitsOf hc
      rw [read_digits hdigits] at hread
      rw [← numeral_eq hread hpointed.lt_infinity]
      exact .whole (digitsOf_ne_nil n) hdigits
  | zero h =>
      have hdigits : ∀ c ∈ ['0'] ++ ['0'], Lexeme.isDigit c = true := by simp [Lexeme.isDigit]
      have hpoint : read ['0', '.', '0'] = ofDigits ['0'] ['0'] := read_point hdigits
      rw [hpoint] at hread
      rw [← numeral_eq hread hpointed.lt_infinity]
      exact .fractional (List.cons_ne_nil _ _) (List.cons_ne_nil _ _) hdigits
  | shortest h =>
      obtain ⟨hleast, hlimit⟩ := hpointed.resolve_left h
      obtain ⟨whole, fraction, hpositional, hwhole, hfraction, hdigits, -⟩ :=
        exists_positional_eq (Decimal.shortest code)
      rw [layout_shortest hleast hlimit, hpositional] at hread ⊢
      rw [read_point hdigits] at hread
      rw [← numeral_eq hread hpointed.lt_infinity]
      exact .fractional hwhole hfraction hdigits

end Binary64

end MiniLox
