import Mathlib.Algebra.Field.Rat
import Mathlib.Data.Nat.Cast.Basic
import MiniLox.Proofs.Decimal.Whole

/-!
The two ways to write a number agree. A whole number below the limit is written with
all its digits, and the shortest text that identifies it has the same digits, with a
point and a zero behind them. No other number has a shortest text with that end, so a
number but the negative zero is written as its shortest text without it, and no two
numbers are written alike.
-/

namespace MiniLox

namespace Decimal

open Binary64

variable {code : Nat} {d : Decimal}

/-- The end of a text that is written as a whole number of its notation. -/
def pointZero : List Char := ['.', '0']

theorem not_pointZero_suffix_of_digits {front digits : List Char}
    (hdigits : ∀ c ∈ digits, Lexeme.isDigit c = true) (hlength : 2 ≤ digits.length) :
    ¬pointZero <:+ front ++ digits := by
  intro hsuffix
  have hin : pointZero <:+ digits :=
    List.suffix_of_suffix_length_le hsuffix (List.suffix_append front digits) hlength
  have hpoint := hdigits '.' (hin.subset (by decide))
  contradiction

theorem not_pointZero_suffix_scientific (d : Decimal) : ¬pointZero <:+ d.scientific := by
  obtain ⟨first, more, -, hscientific⟩ := exists_scientific_eq d
  rw [hscientific]
  generalize more.length + d.exponent = e
  have hsplit : exponentPart e = ['e', if e < 0 then '-' else '+'] ++
      (List.replicate (2 - (digitsOf e.natAbs).length) '0' ++ digitsOf e.natAbs) := rfl
  rw [hsplit, ← List.append_assoc]
  refine not_pointZero_suffix_of_digits (List.forall_mem_append.mpr ⟨?_, ?_⟩) ?_
  · exact fun c hc => isDigit_of_mem_replicate hc
  · exact fun c hc => isDigit_of_mem_digitsOf hc
  · simp only [List.length_append, List.length_replicate]
    omega

/-- With a fraction the last digit of the decimal is the last of the text. -/
theorem getLast?_positional (h : d.exponent < 0) :
    d.positional.getLast? = (digitsOf d.digits).getLast? := by
  have hne := digitsOf_ne_nil d.digits
  unfold positional
  dsimp only
  rw [if_neg (Int.not_le.mpr h)]
  split
  · rw [List.getLast?_append, List.getLast?_eq_some_getLast hne, Option.some_or]
  · next hlength =>
      have hdrop : (digitsOf d.digits).drop
          ((digitsOf d.digits).length - (-d.exponent).toNat) ≠ [] := by
        rw [Ne, List.drop_eq_nil_iff]
        omega
      rw [List.getLast?_append, List.getLast?_cons_of_ne_nil hdrop, List.getLast?_drop,
        if_neg (by omega), List.getLast?_eq_some_getLast hne, Option.some_or]

theorem not_pointZero_suffix_positional (h : d.exponent < 0) (hdigits : d.digits % 10 ≠ 0) :
    ¬pointZero <:+ d.positional := by
  rintro ⟨front, hfront⟩
  have hlast : d.positional.getLast? = some '0' := by
    rw [← hfront, List.getLast?_append]
    rfl
  rw [getLast?_positional h] at hlast
  exact getLast?_digitsOf hdigits hlast

theorem not_pointZero_suffix_of_fraction (hcode : code < infinity)
    (h : ¬∃ n, units code = n * unitsPerOne) : ¬pointZero <:+ (shortest code).layout := by
  have hne : code ≠ 0 := by
    rintro rfl
    exact h ⟨0, by rw [units_zero, Nat.zero_mul]⟩
  unfold layout
  dsimp only
  split
  · exact not_pointZero_suffix_positional (exponent_shortest_lt hcode h)
      (digits_shortest_mod hne hcode)
  · exact not_pointZero_suffix_scientific _

theorem not_pointZero_suffix_of_pointLimit_le (h : pointLimit ≤ code) :
    ¬pointZero <:+ (shortest code).layout := by
  rw [layout_eq_scientific (by exact_mod_cast le_value_of_pointLimit_le h)]
  exact not_pointZero_suffix_scientific _

/-- A text without the point and the zero at its end. -/
def withoutPointZero (u : List Char) : List Char :=
  if pointZero <:+ u then u.dropLast.dropLast else u

theorem withoutPointZero_append (u : List Char) : withoutPointZero (u ++ pointZero) = u := by
  have hlast : (u ++ pointZero).dropLast.dropLast = u := by
    rw [List.dropLast_append_of_ne_nil (by decide), List.dropLast_append_of_ne_nil (by decide)]
    exact List.append_nil u
  rw [withoutPointZero, if_pos (List.suffix_append u pointZero), hlast]

theorem withoutPointZero_of_not_suffix {u : List Char} (h : ¬pointZero <:+ u) :
    withoutPointZero u = u := if_neg h

end Decimal

namespace Binary64

open Decimal

variable {x y : Float} {n code : Nat} {u v : List Char} {negative negative' : Bool}

/-! ### Signs -/

theorem signed_append (negative : Bool) (u v : List Char) :
    signed negative (u ++ v) = signed negative u ++ v := by
  cases negative <;> rfl

theorem pointZero_suffix_signed (h : pointZero <:+ signed negative u) : pointZero <:+ u := by
  cases negative with
  | false => exact h
  | true => exact (List.suffix_cons_iff.mp h).resolve_left fun heq => by simp [pointZero] at heq

/-- The sign can be told from a magnitude that does not begin with one. -/
theorem signed_inj (h : signed negative u = signed negative' v) (hu : u.head? ≠ some '-')
    (hv : v.head? ≠ some '-') : negative = negative' ∧ u = v := by
  cases negative <;> cases negative'
  · exact ⟨rfl, h⟩
  · refine absurd ?_ hu
    rw [show u = '-' :: v from h]
    rfl
  · refine absurd ?_ hv
    rw [← show '-' :: u = v from h]
    rfl
  · exact ⟨rfl, List.tail_eq_of_cons_eq h⟩

/-! ### Kinds of numbers -/

theorem codeOf_le_of_isNaN (h : x.isNaN = false) : codeOf x ≤ infinity := by
  by_contra hgt
  have hnan : x.toModel.unpack.isNaN = false := h
  rw [unpack_of_lt_codeOf (Nat.lt_of_not_le hgt)] at hnan
  contradiction

theorem codeOf_lt_of_isFinite (h : x.isFinite = true) : codeOf x < infinity := by
  have hfinite : x.toModel.unpack.isFinite = true := h
  by_contra hge
  rcases Nat.eq_or_lt_of_le (Nat.le_of_not_lt hge) with heq | hgt
  · rw [← ofCode_codeOf x, unpack_ofCode heq.ge, apart, if_pos heq.symm] at hfinite
    contradiction
  · rw [unpack_of_lt_codeOf hgt] at hfinite
    contradiction

theorem not_negative_zero (h : x ≠ -0) : ¬(isNegative x = true ∧ codeOf x = 0) := by
  rintro ⟨hsign, hcode⟩
  refine h ?_
  rw [← ofCode_codeOf x, signOf, if_pos hsign, hcode, ofCode_negative_zero]

theorem codeOf_ne_zero (hzero : x ≠ 0) (h : x ≠ -0) : codeOf x ≠ 0 := by
  intro hcode
  rw [← ofCode_codeOf x, hcode] at hzero h
  cases hsign : signOf x with
  | positive => exact hzero (hsign ▸ ofCode_zero)
  | negative => exact h (hsign ▸ ofCode_negative_zero)

theorem abs_eq (h : codeOf x < infinity) : x.abs = ofCode .positive (codeOf x) := by
  conv_lhs => rw [← ofCode_codeOf x]
  exact abs_ofCode h.le

theorem codeOf_lt_pointLimit (h : codeOf x < infinity) (habs : x.abs < 1e16) :
    codeOf x < pointLimit := by
  rw [abs_eq h, ← ofCode_pointLimit] at habs
  exact lt_of_ofCode_lt h.le (by decide) habs

theorem pointLimit_le_codeOf (h : codeOf x < infinity) (habs : 1e16 ≤ x.abs) :
    pointLimit ≤ codeOf x := by
  rw [abs_eq h, ← ofCode_pointLimit] at habs
  exact le_of_ofCode_le (by decide) h.le habs

/-! ### Whole numbers -/

/-- The number is `n` or its negative. -/
def IsWhole (x : Float) (n : Nat) : Prop := units (codeOf x) = n * unitsPerOne

theorem IsWhole.lt_limit (h : IsWhole x n) (hlimit : codeOf x < pointLimit) : n < 10 ^ 16 := by
  have hunits := units_strictMono hlimit
  rw [units_pointLimit, h] at hunits
  exact Nat.lt_of_mul_lt_mul_right hunits

/-- A whole number below the limit is written as an integer. -/
theorem IsWhole.integer?_eq (h : IsWhole x n) (hlimit : codeOf x < pointLimit) (hx : x ≠ -0) :
    integer? x = some (if isNegative x then -(n : Int) else n) := by
  have hdivides : units (codeOf x) % unitsPerOne = 0 := by rw [h, Nat.mul_mod_left]
  have hquotient : (units (codeOf x) : Int) / unitsPerOne = n := by
    rw [← Int.natCast_ediv, h, Nat.mul_div_cancel n unitsPerOne_pos]
  unfold integer?
  dsimp only
  rw [if_pos ⟨hdivides, units_lt_limit_iff.mpr hlimit, not_negative_zero hx⟩, hquotient]

theorem IsWhole.toList_text (h : IsWhole x n) (hlimit : codeOf x < pointLimit) (hx : x ≠ -0) :
    (Value.number x).text.toList = signed (isNegative x) (digitsOf n) := by
  have htext : (Value.number x).text = toString (if isNegative x then -(n : Int) else n) := by
    rw [Value.text, h.integer?_eq hlimit hx]
  rw [htext]
  exact toList_toString_signed fun hsign =>
    pos_of_whole h fun hzero => not_negative_zero hx ⟨hsign, hzero⟩

/-- The shortest text of a positive magnitude. -/
theorem text_eq_layout (h : codeOf x < infinity) (hne : codeOf x ≠ 0) :
    text x = signed (isNegative x) (shortest (codeOf x)).layout := by
  unfold text
  dsimp only
  rw [if_neg (Nat.not_lt.mpr h.le), if_neg (Nat.ne_of_lt h), if_neg hne]

theorem IsWhole.text_eq (h : IsWhole x n) (hlimit : codeOf x < pointLimit) :
    text x = signed (isNegative x) (digitsOf n ++ pointZero) := by
  have hfinite : codeOf x < infinity := hlimit.trans (by decide)
  rcases Nat.eq_zero_or_pos n with rfl | hn
  · have hzero : codeOf x = 0 := by
      rw [IsWhole, Nat.zero_mul] at h
      exact units_eq_zero_iff.mp h
    unfold text
    dsimp only
    rw [if_neg (Nat.not_lt.mpr hfinite.le), if_neg (Nat.ne_of_lt hfinite), if_pos hzero]
    rfl
  · have hne : codeOf x ≠ 0 := by
      intro hzero
      have hsome := Nat.mul_pos hn unitsPerOne_pos
      unfold IsWhole at h
      rw [← h, hzero, units_zero] at hsome
      exact Nat.lt_irrefl 0 hsome
    rw [text_eq_layout hfinite hne, layout_of_whole hn (h.lt_limit hlimit) h]
    rfl

/-! ### All other numbers -/

theorem integer?_eq_none (h : (¬∃ n, IsWhole x n) ∨ pointLimit ≤ codeOf x) :
    integer? x = none := by
  rcases h with hfraction | hlarge
  · unfold integer?
    dsimp only
    exact if_neg fun hwhole =>
      hfraction ⟨_, (Nat.div_mul_cancel (Nat.dvd_of_mod_eq_zero hwhole.1)).symm⟩
  · exact integer?_eq_none_of_le hlarge

theorem not_pointZero_suffix_text (hfinite : codeOf x < infinity)
    (h : (¬∃ n, IsWhole x n) ∨ pointLimit ≤ codeOf x) : ¬pointZero <:+ text x := by
  have hne : codeOf x ≠ 0 := by
    intro hzero
    rcases h with hfraction | hlarge
    · exact hfraction ⟨0, by rw [IsWhole, hzero, units_zero, Nat.zero_mul]⟩
    · rw [hzero] at hlarge
      contradiction
  rw [text_eq_layout hfinite hne]
  intro hsuffix
  rcases h with hfraction | hlarge
  · exact not_pointZero_suffix_of_fraction hfinite hfraction (pointZero_suffix_signed hsuffix)
  · exact not_pointZero_suffix_of_pointLimit_le hlarge (pointZero_suffix_signed hsuffix)

theorem toList_text_eq_withoutPointZero (hfinite : codeOf x < infinity) (hx : x ≠ -0) :
    (Value.number x).text.toList = withoutPointZero (text x) := by
  by_cases h : (¬∃ n, IsWhole x n) ∨ pointLimit ≤ codeOf x
  · rw [toList_text_of_integer? (integer?_eq_none h),
      withoutPointZero_of_not_suffix (not_pointZero_suffix_text hfinite h)]
  · rw [not_or, not_not, Nat.not_le] at h
    obtain ⟨⟨n, hwhole⟩, hlimit⟩ := h
    rw [hwhole.toList_text hlimit hx, hwhole.text_eq hlimit, signed_append,
      withoutPointZero_append]

/-! ### Different texts -/

theorem Writes.head?_ne (h : Writes code u) : u.head? ≠ some '-' := by
  obtain ⟨c, cs, rfl, hdigit, -⟩ := h.exists_eq_cons
  intro heq
  obtain rfl := Option.some.inj heq
  contradiction

/-- A text with its sign taken away is that of one magnitude, infinity included. -/
theorem exists_magnitude_text (h : codeOf x ≤ infinity) :
    ∃ u, (Value.number x).text.toList = signed (isNegative x) u ∧ u.head? ≠ some '-' ∧
      (codeOf x < infinity ∧ Writes (codeOf x) u ∨ codeOf x = infinity ∧ u = ['i', 'n', 'f']) := by
  rcases Nat.lt_or_eq_of_le h with hfinite | hinfinite
  · obtain ⟨u, htext, hwrites⟩ := exists_toList_text_eq hfinite
    exact ⟨u, htext, hwrites.head?_ne, .inl ⟨hfinite, hwrites⟩⟩
  · exact ⟨_, toList_text_of_infinity hinfinite, by decide, .inr ⟨hinfinite, rfl⟩⟩

theorem not_writes_infinity : ¬Writes code ['i', 'n', 'f'] := by
  intro h
  obtain ⟨c, cs, heq, hdigit, -⟩ := h.exists_eq_cons
  obtain rfl := List.head_eq_of_cons_eq heq
  contradiction

theorem eq_of_text_eq (hx : x.isNaN = false) (hy : y.isNaN = false)
    (h : (Value.number x).text = (Value.number y).text) : x = y := by
  obtain ⟨u, hxtext, hu, hxmagnitude⟩ := exists_magnitude_text (codeOf_le_of_isNaN hx)
  obtain ⟨v, hytext, hv, hymagnitude⟩ := exists_magnitude_text (codeOf_le_of_isNaN hy)
  rw [h, hytext] at hxtext
  obtain ⟨hsign, rfl⟩ := signed_inj hxtext hv hu
  have hcode : codeOf x = codeOf y := by
    rcases hxmagnitude with ⟨hxfinite, hxwrites⟩ | ⟨hxinfinite, rfl⟩
    · rcases hymagnitude with ⟨hyfinite, hywrites⟩ | ⟨-, rfl⟩
      · exact hxwrites.code_eq hywrites hxfinite hyfinite
      · exact absurd hxwrites not_writes_infinity
    · rcases hymagnitude with ⟨-, hywrites⟩ | ⟨hyinfinite, -⟩
      · exact absurd hywrites not_writes_infinity
      · rw [hxinfinite, hyinfinite]
  rw [← ofCode_codeOf x, ← ofCode_codeOf y, hcode, signOf, signOf, hsign]

/-- A finite number but the negative zero is written as its shortest text without a point
and a zero at the end. That text has the fewest digits that identify the number. A whole
number below the limit has all its digits in both, and no other number has that end. Numbers
that are written alike are the same. -/
theorem number_texts_agree :
    (∀ x : Float, x.isFinite = true → x ≠ -0 →
      (Value.number x).text.toList = withoutPointZero (text x) ∧
      (x ≠ 0 → text x = signed (isNegative x) (shortest (codeOf x)).layout ∧
        IsShortest (codeOf x) (shortest (codeOf x))) ∧
      (∀ n, IsWhole x n → x.abs < 1e16 →
        (Value.number x).text.toList = signed (isNegative x) (digitsOf n) ∧
          text x = signed (isNegative x) (digitsOf n ++ pointZero)) ∧
      ((¬∃ n, IsWhole x n) ∨ 1e16 ≤ x.abs → ¬pointZero <:+ text x)) ∧
    ∀ x y : Float, x.isNaN = false → y.isNaN = false →
      (Value.number x).text = (Value.number y).text → x = y := by
  refine ⟨fun x hfinite hx => ?_, fun x y hx hy h => eq_of_text_eq hx hy h⟩
  have hcode := codeOf_lt_of_isFinite hfinite
  refine ⟨toList_text_eq_withoutPointZero hcode hx, fun hzero => ?_, fun n hwhole habs => ?_,
    fun h => ?_⟩
  · have hne := codeOf_ne_zero hzero hx
    exact ⟨text_eq_layout hcode hne, isShortest_shortest hne hcode⟩
  · have hlimit := codeOf_lt_pointLimit hcode habs
    exact ⟨hwhole.toList_text hlimit hx, hwhole.text_eq hlimit⟩
  · exact not_pointZero_suffix_text hcode (h.imp_right (pointLimit_le_codeOf hcode))

/-- The last whole numbers below the limit are even, the last fraction is a half, and the limit
has an exponent. -/
theorem number_texts_agree_at_limits :
    (Value.number 9999999999999998).text.toList = "9999999999999998".toList ∧
    text 9999999999999998 = "9999999999999998.0".toList ∧
    ¬pointZero <:+ text 4503599627370495.5 ∧
    (Value.number (-1e16)).text.toList = withoutPointZero (text (-1e16)) ∧
    ¬pointZero <:+ text (-1e16) ∧ (0.1 + 0.2 : Float) = 0.30000000000000004 := by
  have hne {x : Float} (h : x.toBits ≠ (-0 : Float).toBits) : x ≠ -0 :=
    fun heq => h (congrArg Float.toBits heq)
  have hwhole : IsWhole 9999999999999998 9999999999999998 := by
    unfold IsWhole
    decide +kernel
  have hfraction : ¬∃ n, IsWhole 4503599627370495.5 n := by
    rintro ⟨n, hn⟩
    have hdivides := Nat.mul_mod_left n unitsPerOne
    unfold IsWhole at hn
    rw [← hn] at hdivides
    revert hdivides
    decide +kernel
  obtain ⟨-, -, hsame, -⟩ := number_texts_agree.1 9999999999999998 (by decide +kernel)
    (hne (by decide +kernel))
  obtain ⟨hinteger, hshortest⟩ := hsame _ hwhole (by decide +kernel)
  obtain ⟨-, -, -, hpoint⟩ := number_texts_agree.1 4503599627370495.5 (by decide +kernel)
    (hne (by decide +kernel))
  obtain ⟨htext, -, -, hlimit⟩ := number_texts_agree.1 (-1e16) (by decide +kernel)
    (hne (by decide +kernel))
  refine ⟨hinteger.trans (by decide +kernel), hshortest.trans (by decide +kernel),
    hpoint (.inl hfraction), htext, hlimit (.inr (by decide +kernel)), ?_⟩
  exact number_texts_agree.2 _ _ (by decide +kernel) (by decide +kernel) (by decide +kernel)

end Binary64

end MiniLox
