import Mathlib.Data.List.TakeWhile
import Mathlib.Data.Nat.Digits.Defs
import Mathlib.Tactic.FieldSimp
import MiniLox.Decimal.Notation
import MiniLox.Proofs.Decimal.Shortest
import MiniLox.Proofs.Token.Spelling

/-!
Decimals read back from their texts. A text is read as the digits around its
point and the exponent behind them, and in either notation a decimal is read as
itself, but for zeros at the end of its digits.
-/

namespace MiniLox

theorem Lexeme.isDigit_eq (c : Char) : Lexeme.isDigit c = c.isDigit := by
  simp only [Lexeme.isDigit, Char.isDigit, Bool.decide_and, Char.le_def, ge_iff_le]

namespace Decimal

open Lexeme

variable {whole fraction digits : List Char}

/-! ### Digits -/

theorem digitsOf_ne_nil (n : Nat) : digitsOf n ≠ [] := Nat.toDigits_ne_nil

theorem isDigit_of_mem_digitsOf {n : Nat} {c : Char} (h : c ∈ digitsOf n) : isDigit c = true := by
  rw [isDigit_eq]
  exact Nat.isDigit_of_mem_toDigits (by decide) (by decide) h

theorem ofDigitChars_digitsOf (n : Nat) : Nat.ofDigitChars 10 (digitsOf n) 0 = n :=
  Nat.ofDigitChars_ten_toDigits

theorem isDigit_of_mem_replicate {n : Nat} {c : Char} (h : c ∈ List.replicate n '0') :
    isDigit c = true := by
  rw [List.eq_of_mem_replicate h]
  decide

theorem ne_of_isDigit {c mark : Char} (hc : isDigit c = true) (hmark : isDigit mark = false) :
    c ≠ mark := by
  rintro rfl
  rw [hmark] at hc
  contradiction

theorem not_mem_of_digits {mark : Char} (h : ∀ c ∈ digits, isDigit c = true)
    (hmark : isDigit mark = false) : mark ∉ digits :=
  fun hmem => ne_of_isDigit (h mark hmem) hmark rfl

theorem lt_pow_length_digitsOf (n : Nat) : n < 10 ^ (digitsOf n).length := by
  induction n using Nat.strong_induction_on with
  | _ n ih =>
      rw [digitsOf, Nat.toDigits_eq_if (by decide)]
      split
      · next hlt => simpa using hlt
      · next hge =>
          have hquotient := ih (n / 10) (by omega)
          rw [digitsOf] at hquotient
          rw [List.length_append, List.length_singleton, Nat.pow_succ]
          omega

theorem pow_le_of_digitsOf {n : Nat} (hn : 0 < n) : 10 ^ ((digitsOf n).length - 1) ≤ n := by
  by_contra hlt
  rcases Nat.eq_zero_or_pos ((digitsOf n).length - 1) with hzero | hpos
  · rw [hzero] at hlt
    omega
  · have hle := Nat.toDigits_length 10 n _ hpos (Nat.lt_of_not_le hlt)
    rw [← digitsOf] at hle
    omega

/-! ### Reading -/

/-- The digits of a text around its point. -/
def readMantissa (text : List Char) : Decimal :=
  ofDigits (text.takeWhile (· != '.')) ((text.dropWhile (· != '.')).drop 1)

/-- A whole number with a sign. -/
def readExponent : List Char → Int
  | [] => 0
  | sign :: digits =>
    if sign = '-' then -(Nat.ofDigitChars 10 digits 0 : Int) else Nat.ofDigitChars 10 digits 0

/-- The decimal that a text stands for. -/
def read (text : List Char) : Decimal :=
  let mantissa := readMantissa (text.takeWhile (· != 'e'))
  { mantissa with
    exponent := mantissa.exponent + readExponent ((text.dropWhile (· != 'e')).drop 1) }

theorem readMantissa_point (h : ∀ c ∈ whole, isDigit c = true) :
    readMantissa (whole ++ '.' :: fraction) = ofDigits whole fraction := by
  have hpasses : ∀ c ∈ whole, (c != '.') = true :=
    fun c hc => bne_iff_ne.mpr (ne_of_isDigit (h c hc) (by decide))
  rw [readMantissa, takeWhile_append_of_head? hpasses (by simp),
    dropWhile_append_of_head? hpasses (by simp), List.drop_one, List.tail_cons]

theorem readMantissa_digits (h : ∀ c ∈ whole, isDigit c = true) :
    readMantissa whole = ofDigits whole [] := by
  have hpasses : ∀ c ∈ whole, (c != '.') = true :=
    fun c hc => bne_iff_ne.mpr (ne_of_isDigit (h c hc) (by decide))
  rw [readMantissa, List.takeWhile_eq_self_iff.mpr hpasses, List.dropWhile_eq_nil_iff.mpr hpasses,
    List.drop_nil]

theorem read_of_not_mem {text : List Char} (h : 'e' ∉ text) : read text = readMantissa text := by
  have hpasses : ∀ c ∈ text, (c != 'e') = true :=
    fun c hc => bne_iff_ne.mpr (ne_of_mem_of_not_mem hc h)
  rw [read, List.takeWhile_eq_self_iff.mpr hpasses, List.dropWhile_eq_nil_iff.mpr hpasses,
    List.drop_nil, readExponent]
  simp

theorem read_append_e {text exponent : List Char} (h : 'e' ∉ text) :
    read (text ++ 'e' :: exponent) =
      { readMantissa text with
        exponent := (readMantissa text).exponent + readExponent exponent } := by
  have hpasses : ∀ c ∈ text, (c != 'e') = true :=
    fun c hc => bne_iff_ne.mpr (ne_of_mem_of_not_mem hc h)
  rw [read, takeWhile_append_of_head? hpasses (by simp),
    dropWhile_append_of_head? hpasses (by simp), List.drop_one, List.tail_cons]

theorem read_digits (h : ∀ c ∈ whole, isDigit c = true) : read whole = ofDigits whole [] := by
  rw [read_of_not_mem (not_mem_of_digits h (by decide)), readMantissa_digits h]

theorem read_point (h : ∀ c ∈ whole ++ fraction, isDigit c = true) :
    read (whole ++ '.' :: fraction) = ofDigits whole fraction := by
  obtain ⟨hwhole, hfraction⟩ := List.forall_mem_append.mp h
  have hplain : 'e' ∉ whole ++ '.' :: fraction := by
    have hw := @not_mem_of_digits _ 'e' hwhole (by decide)
    have hf := @not_mem_of_digits _ 'e' hfraction (by decide)
    simp [hw, hf]
  rw [read_of_not_mem hplain, readMantissa_point hwhole]

/-! ### Both notations -/

theorem digits_ofDigits_digitsOf {n : Nat} (h : whole ++ fraction = digitsOf n) :
    ofDigits whole fraction = { digits := n, exponent := -(fraction.length : Int) } := by
  rw [ofDigits, h, ofDigitChars_digitsOf]

/-- Zeros in front of the digits change nothing. -/
theorem ofDigitChars_zeros_append (n : Nat) (digits : List Char) :
    Nat.ofDigitChars 10 (List.replicate n '0' ++ digits) 0 = Nat.ofDigitChars 10 digits 0 := by
  rw [Nat.ofDigitChars_append, Nat.ofDigitChars_replicate_zero, Nat.mul_zero]

/-- Zeros behind the digits of a whole number and behind its point. -/
theorem value_ofDigits_zeros (n zeros : Nat) :
    (ofDigits (digitsOf n ++ List.replicate zeros '0') ['0']).value =
      value { digits := n, exponent := zeros } := by
  have hlast : ['0'] = List.replicate 1 '0' := rfl
  rw [ofDigits, hlast, Nat.ofDigitChars_append, Nat.ofDigitChars_append,
    Nat.ofDigitChars_replicate_zero, Nat.ofDigitChars_replicate_zero, ofDigitChars_digitsOf]
  simp only [value, List.length_replicate, zpow_natCast]
  push_cast
  field_simp

theorem exists_positional_eq (d : Decimal) :
    ∃ whole fraction, d.positional = whole ++ '.' :: fraction ∧ whole ≠ [] ∧ fraction ≠ [] ∧
      (∀ c ∈ whole ++ fraction, isDigit c = true) ∧ (ofDigits whole fraction).value = d.value := by
  obtain ⟨n, exponent⟩ := d
  have hne := digitsOf_ne_nil n
  have hdigits : ∀ c ∈ digitsOf n, isDigit c = true := fun c hc => isDigit_of_mem_digitsOf hc
  have hzeros (k : Nat) : ∀ c ∈ List.replicate k '0', isDigit c = true :=
    fun c hc => isDigit_of_mem_replicate hc
  have hzero : ∀ c ∈ ['0'], isDigit c = true := by simp [isDigit]
  unfold positional
  dsimp only
  split
  · next hsign =>
      obtain ⟨zeros, rfl⟩ := Int.eq_ofNat_of_zero_le hsign
      refine ⟨digitsOf n ++ List.replicate zeros '0', ['0'], rfl, by simp [hne], by simp, ?_,
        value_ofDigits_zeros n zeros⟩
      exact List.forall_mem_append.mpr ⟨List.forall_mem_append.mpr ⟨hdigits, hzeros zeros⟩, hzero⟩
  · next hsign =>
      obtain ⟨places, rfl⟩ : ∃ places : Nat, exponent = -places := ⟨(-exponent).toNat, by omega⟩
      rw [neg_neg, Int.toNat_natCast]
      split
      · next hlength =>
          refine ⟨['0'], List.replicate (places - (digitsOf n).length) '0' ++ digitsOf n,
            by simp, by simp, by simp [hne], ?_, ?_⟩
          · exact List.forall_mem_append.mpr
              ⟨hzero, List.forall_mem_append.mpr ⟨hzeros _, hdigits⟩⟩
          · have hfront : ['0'] ++ (List.replicate (places - (digitsOf n).length) '0' ++
                digitsOf n) = List.replicate (places - (digitsOf n).length + 1) '0' ++
                digitsOf n := by
              rw [List.replicate_succ]
              rfl
            rw [ofDigits, hfront, ofDigitChars_zeros_append, ofDigitChars_digitsOf]
            simp only [List.length_append, List.length_replicate]
            rw [Nat.sub_add_cancel hlength]
      · next hlength =>
          have hsplit : (digitsOf n).take ((digitsOf n).length - places) ++
              (digitsOf n).drop ((digitsOf n).length - places) = digitsOf n :=
            List.take_append_drop ..
          refine ⟨_, _, rfl, ?_, ?_, ?_, ?_⟩
          · rw [Ne, List.take_eq_nil_iff, not_or]
            exact ⟨by omega, hne⟩
          · rw [Ne, List.drop_eq_nil_iff]
            omega
          · rwa [hsplit]
          · rw [digits_ofDigits_digitsOf hsplit, List.length_drop]
            congr 3
            omega

theorem exists_scientific_eq (d : Decimal) :
    ∃ first more, digitsOf d.digits = first :: more ∧
      d.scientific = (if more = [] then [first] else first :: '.' :: more) ++
        exponentPart (more.length + d.exponent) := by
  obtain ⟨first, more, hdigits⟩ := List.exists_cons_of_ne_nil (digitsOf_ne_nil d.digits)
  refine ⟨first, more, hdigits, ?_⟩
  unfold scientific
  rw [hdigits]
  cases more with
  | nil => simp
  | cons second more => simp

theorem exists_exponentPart_eq (e : Int) :
    ∃ tail, exponentPart e = 'e' :: tail ∧ readExponent tail = e := by
  refine ⟨_, rfl, ?_⟩
  rw [readExponent, ofDigitChars_zeros_append, ofDigitChars_digitsOf]
  split_ifs with hsign hmark
  · omega
  · simp at hmark
  · contradiction
  · omega

theorem read_scientific (d : Decimal) : read d.scientific = d := by
  obtain ⟨first, more, hdigits, hscientific⟩ := exists_scientific_eq d
  obtain ⟨tail, htail, hexponent⟩ := exists_exponentPart_eq (more.length + d.exponent)
  have hall : ∀ c ∈ first :: more, isDigit c = true := by
    rw [← hdigits]
    exact fun c hc => isDigit_of_mem_digitsOf hc
  obtain ⟨hfirst, hmore⟩ := List.forall_mem_cons.mp hall
  have hsingle : ∀ c ∈ [first], isDigit c = true := List.forall_mem_singleton.mpr hfirst
  have hmantissa : readMantissa (if more = [] then [first] else first :: '.' :: more) =
      { digits := d.digits, exponent := -(more.length : Int) } := by
    have hsplit : [first] ++ more = digitsOf d.digits := hdigits.symm
    split_ifs with hnone
    · subst hnone
      rw [readMantissa_digits hsingle, digits_ofDigits_digitsOf hsplit]
    · rw [← digits_ofDigits_digitsOf hsplit]
      exact readMantissa_point hsingle
  have hplain : 'e' ∉ (if more = [] then [first] else first :: '.' :: more) := by
    have hno := @not_mem_of_digits _ 'e' hall (by decide)
    rw [List.mem_cons, not_or] at hno
    split_ifs
    · simp [hno.1]
    · simp [hno.1, hno.2]
  rw [hscientific, htail, read_append_e hplain, hmantissa, hexponent]
  simp

theorem value_read_positional (d : Decimal) : (read d.positional).value = d.value := by
  obtain ⟨whole, fraction, hpositional, -, -, hdigits, hvalue⟩ := exists_positional_eq d
  rw [hpositional, read_point hdigits, hvalue]

/-- The text of a decimal stands for a decimal of the same value. -/
theorem value_read_layout (d : Decimal) : (read d.layout).value = d.value := by
  unfold layout
  dsimp only
  split
  · exact value_read_positional d
  · rw [read_scientific]

/-- Digits, a point, and an exponent with its sign. -/
def isNumeralPart (c : Char) : Bool :=
  isDigit c || c == '.' || c == 'e' || c == '+' || c == '-'

theorem isNumeralPart_of_isDigit {c : Char} (h : isDigit c = true) : isNumeralPart c = true := by
  simp [isNumeralPart, h]

theorem isNumeralPart_exponentPart (e : Int) : ∀ c ∈ exponentPart e, isNumeralPart c = true := by
  have hdigits : ∀ c ∈ List.replicate (2 - (digitsOf e.natAbs).length) '0' ++ digitsOf e.natAbs,
      isNumeralPart c = true :=
    List.forall_mem_append.mpr
      ⟨fun c hc => isNumeralPart_of_isDigit (isDigit_of_mem_replicate hc),
        fun c hc => isNumeralPart_of_isDigit (isDigit_of_mem_digitsOf hc)⟩
  have hsign : isNumeralPart (if e < 0 then '-' else '+') = true := by
    split <;> decide
  exact List.forall_mem_cons.mpr ⟨by decide, List.forall_mem_cons.mpr ⟨hsign, hdigits⟩⟩

/-- The text of a decimal begins with a digit. -/
theorem exists_layout_eq_cons (d : Decimal) : ∃ c cs, d.layout = c :: cs ∧ isDigit c = true ∧
    ∀ c ∈ cs, isNumeralPart c = true := by
  unfold layout
  dsimp only
  split
  · obtain ⟨whole, fraction, hpositional, hwhole, -, hdigits, -⟩ := exists_positional_eq d
    obtain ⟨c, cs, rfl⟩ := List.exists_cons_of_ne_nil hwhole
    obtain ⟨hfront, hfraction⟩ := List.forall_mem_append.mp hdigits
    obtain ⟨hc, hcs⟩ := List.forall_mem_cons.mp hfront
    refine ⟨c, cs ++ '.' :: fraction, hpositional, hc, List.forall_mem_append.mpr ⟨?_, ?_⟩⟩
    · exact fun c hc => isNumeralPart_of_isDigit (hcs c hc)
    · exact List.forall_mem_cons.mpr
        ⟨by decide, fun c hc => isNumeralPart_of_isDigit (hfraction c hc)⟩
  · obtain ⟨first, more, hdigits, hscientific⟩ := exists_scientific_eq d
    have hall : ∀ c ∈ first :: more, isDigit c = true := by
      rw [← hdigits]
      exact fun c hc => isDigit_of_mem_digitsOf hc
    obtain ⟨hfirst, hmore⟩ := List.forall_mem_cons.mp hall
    have hexponent := isNumeralPart_exponentPart (more.length + d.exponent)
    rw [hscientific]
    split
    · exact ⟨first, _, rfl, hfirst, hexponent⟩
    · refine ⟨first, _, rfl, hfirst, List.forall_mem_append.mpr ⟨?_, hexponent⟩⟩
      exact List.forall_mem_cons.mpr
        ⟨by decide, fun c hc => isNumeralPart_of_isDigit (hmore c hc)⟩

/-! ### The choice of the notation -/

variable {d : Decimal}

theorem value_lt_pow (d : Decimal) :
    d.value < (10 : ℚ) ^ (((digitsOf d.digits).length : Int) + d.exponent) := by
  rw [zpow_add₀ (by norm_num), zpow_natCast, value]
  exact mul_lt_mul_of_pos_right (by exact_mod_cast lt_pow_length_digitsOf d.digits)
    (zpow_pos (by norm_num) _)

/-- The first digit stands for its power of ten at least. -/
theorem pow_le_value (h : 0 < d.digits) :
    (10 : ℚ) ^ (((digitsOf d.digits).length : Int) - 1 + d.exponent) ≤ d.value := by
  have hlength : 0 < (digitsOf d.digits).length := List.length_pos_iff.mpr (digitsOf_ne_nil _)
  have hcast : (((digitsOf d.digits).length : Int) - 1) =
      ((digitsOf d.digits).length - 1 : Nat) := by
    omega
  rw [zpow_add₀ (by norm_num), hcast, zpow_natCast, value]
  exact mul_le_mul_of_nonneg_right (by exact_mod_cast pow_le_of_digitsOf h)
    (zpow_pos (by norm_num) _).le

/-- A decimal between `10 ^ -4` and `10 ^ 16` is written without an exponent. -/
theorem layout_eq_positional (hlow : (10 : ℚ) ^ (-4 : Int) ≤ d.value)
    (hhigh : d.value < 10 ^ (16 : Int)) : d.layout = d.positional := by
  have hdigits : 0 < d.digits := by
    rw [Nat.pos_iff_ne_zero]
    intro hzero
    rw [value, hzero, Nat.cast_zero, zero_mul] at hlow
    exact absurd hlow (not_le.mpr (zpow_pos (by norm_num) _))
  have hten : (1 : ℚ) < 10 := by norm_num
  have hfirst := (zpow_lt_zpow_iff_right₀ hten).mp (hlow.trans_lt (value_lt_pow d))
  have hlast := (zpow_lt_zpow_iff_right₀ hten).mp ((pow_le_value hdigits).trans_lt hhigh)
  unfold layout
  exact if_pos ⟨by omega, hlast⟩

/-- A decimal from `10 ^ 16` on is written with an exponent. -/
theorem layout_eq_scientific (h : (10 : ℚ) ^ (16 : Int) ≤ d.value) : d.layout = d.scientific := by
  have hten : (1 : ℚ) < 10 := by norm_num
  have hlead := (zpow_lt_zpow_iff_right₀ hten).mp (h.trans_lt (value_lt_pow d))
  unfold layout
  exact if_neg fun hrange => by omega

end Decimal

end MiniLox
