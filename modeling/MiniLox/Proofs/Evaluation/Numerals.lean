import MiniLox.Machine
import MiniLox.Proofs.Decimal.Texts
import MiniLox.Proofs.Grammar.Recognition
import MiniLox.Proofs.Grammar.Runs
import MiniLox.Proofs.Token.Split

/-!
Printed numbers as programs. The text of a number that is written with a point is
a numeral, or a minus sign and a numeral, and such a text in front of a semicolon
is a program of one statement. The value of its expression is the number that was
printed, down to the sign of zero.
-/

namespace MiniLox

open Lexeme Grammar Binary64

/-! ### Tokens -/

section Tokens

variable {v : Value} {u : List Char}

theorem split_semicolon : Split [(.token .semicolon none, [';'])] [';'] := by
  have hspells : Spells (.token .semicolon none) [';'] := .symbol (by decide)
  refine .cons hspells (hspells.longest_iff.mpr ?_) .nil
  rintro ⟨⟩

/-- A numeral in front of a semicolon. -/
theorem split_numeral (h : Spells (.token .number (some v)) u) :
    Split [(.token .number (some v), u), (.token .semicolon none, [';'])] (u ++ [';']) := by
  refine .cons h (h.longest_iff.mpr fun hcarries => ?_) split_semicolon
  cases hcarries with
  | digit hc => exact absurd hc (by decide)

/-- A minus sign in front of anything. -/
theorem split_minus {items : List (Lexeme × List Char)} {s : List Char} (h : Split items s) :
    Split ((.token .minus none, ['-']) :: items) ('-' :: s) := by
  have hspells : Spells (.token .minus none) ['-'] := .symbol (by decide)
  refine .cons hspells (hspells.longest_iff.mpr fun hcarries => ?_) h
  cases hcarries with
  | word hkind hc => exact absurd hkind (by decide)
  | equal hkind => exact absurd hkind (by decide)

theorem exists_scan_numeral (h : Spells (.token .number (some v)) u) :
    ∃ number semicolon last, Token.scanFrom {} (u ++ [';']) = .ok [number, semicolon, last] ∧
      number.kind = .number ∧ number.literal = some v ∧ semicolon.kind = .semicolon ∧
      last.kind = .endOfText :=
  ⟨_, _, _, Token.scanFrom_eq_ok_iff.mpr ⟨_, split_numeral h, rfl⟩, rfl, rfl, rfl, rfl⟩

theorem exists_scan_minus (h : Spells (.token .number (some v)) u) :
    ∃ minus number semicolon last,
      Token.scanFrom {} ('-' :: (u ++ [';'])) = .ok [minus, number, semicolon, last] ∧
      minus.kind = .minus ∧ number.kind = .number ∧ number.literal = some v ∧
      semicolon.kind = .semicolon ∧ last.kind = .endOfText :=
  ⟨_, _, _, _, Token.scanFrom_eq_ok_iff.mpr ⟨_, split_minus (split_numeral h), rfl⟩, rfl, rfl, rfl,
    rfl, rfl⟩

end Tokens

/-! ### Statements -/

namespace Grammar

open Rule

variable {r : Rule Expr} {levels : Nat} {first semicolon : Token} {ts rest : List Token} {e : Expr}

/-- A semicolon carries no operand on. -/
theorem binaryOver_read_of_semicolon (hread : r.read ts = .ok (e, semicolon :: rest))
    (hsemicolon : semicolon.kind = .semicolon) :
    (binaryOver r).read ts = .ok (e, semicolon :: rest) := by
  have hstop {operators : Kind → Bool} (hno : operators .semicolon = false) {operand : Rule Expr}
      (hoperand : operand.read ts = .ok (e, semicolon :: rest)) :
      (chain operators operand).read ts = .ok (e, semicolon :: rest) :=
    chain_eq_ok.mpr ⟨e, _, hoperand, chainRest_stop (by rw [hsemicolon, hno])⟩
  exact hstop rfl (hstop rfl (hstop rfl (hstop rfl hread)))

/-- An operand in front of a semicolon is a statement. -/
theorem statement_read_of_unary
    (hread : (unary levels).read (first :: ts) = .ok (e, semicolon :: rest))
    (hsemicolon : semicolon.kind = .semicolon) (hvar : first.kind ≠ .varWord)
    (hprint : first.kind ≠ .printWord) :
    (statement levels).read (first :: ts) = .ok ({ form := .expression, expr := e }, rest) := by
  rw [statement_read_cons, if_neg hvar, if_neg hprint, closed, andThen_eq_ok]
  refine ⟨e, _, binaryOver_read_of_semicolon hread hsemicolon, ?_⟩
  rw [map_eq_ok]
  exact ⟨semicolon, token_eq_ok.mpr ⟨rfl, by simp [hsemicolon]⟩, rfl⟩

theorem unary_read_number {number : Token} (hnumber : number.kind = .number) :
    (unary (levels + 1)).read (number :: rest) = .ok (.literal number.denoted, rest) := by
  rw [unary_read_cons, hnumber, if_neg (by decide), primaryOver_read_cons, hnumber,
    if_pos (by decide)]

theorem unary_read_minus {minus number : Token} (hminus : minus.kind = .minus)
    (hnumber : number.kind = .number) :
    (unary (levels + 2)).read (minus :: number :: rest) =
      .ok (.unary minus (.literal number.denoted), rest) := by
  rw [unary_read_cons, hminus, if_pos (by decide), signed, andThen_eq_ok]
  refine ⟨minus, _, token_eq_ok.mpr ⟨rfl, by simp [hminus, Kind.isUnary]⟩, ?_⟩
  exact map_eq_ok.mpr ⟨_, unary_read_number hnumber, rfl⟩

/-- One statement is a program. -/
theorem ofTokens_of_statement {last : Token} {s : Stmt}
    (hread : (statement levels).read ts = .ok (s, [])) (hunended : Unended ts)
    (hlast : last.kind = .endOfText) :
    Program.ofTokens levels (ts ++ [last]) = { parts := [.statement s], tooDeep := false } := by
  rw [Program.ofTokens_append_last hunended hlast, Program.ofTokensBefore_of_ok hread,
    Program.ofTokensBefore]
  rfl

theorem ofTokens_number {number last : Token} (hnumber : number.kind = .number)
    (hsemicolon : semicolon.kind = .semicolon) (hlast : last.kind = .endOfText) :
    Program.ofTokens (levels + 1) [number, semicolon, last] =
      { parts := [.statement { form := .expression, expr := .literal number.denoted }]
        tooDeep := false } := by
  refine @ofTokens_of_statement (levels + 1) [number, semicolon] last _ ?_ ?_ hlast
  · exact statement_read_of_unary (unary_read_number hnumber) hsemicolon (by simp [hnumber])
      (by simp [hnumber])
  · simp [Unended, hnumber, hsemicolon]

theorem ofTokens_minus {minus number last : Token} (hminus : minus.kind = .minus)
    (hnumber : number.kind = .number) (hsemicolon : semicolon.kind = .semicolon)
    (hlast : last.kind = .endOfText) :
    Program.ofTokens (levels + 2) [minus, number, semicolon, last] =
      { parts := [.statement
          { form := .expression, expr := .unary minus (.literal number.denoted) }]
        tooDeep := false } := by
  refine @ofTokens_of_statement (levels + 2) [minus, number, semicolon] last _ ?_ ?_ hlast
  · exact statement_read_of_unary (unary_read_minus hminus hnumber) hsemicolon
      (by simp [hminus]) (by simp [hminus])
  · simp [Unended, hminus, hnumber, hsemicolon]

end Grammar

/-! ### Printed numbers -/

theorem Machine.evaluate_literal {m : Machine} (h : 1 ≤ m.levels) (value : Value) :
    m.evaluate (.literal value) = .ok value := by
  obtain ⟨levels, hlevels⟩ := Nat.exists_eq_add_of_le' h
  rw [evaluate, hlevels]
  rfl

theorem Machine.evaluate_minus {m : Machine} (h : 2 ≤ m.levels) {minus : Token}
    (hminus : minus.kind = .minus) (x : Float) :
    m.evaluate (.unary minus (.literal (.number x))) = .ok (.number (-x)) := by
  obtain ⟨levels, hlevels⟩ := Nat.exists_eq_add_of_le' h
  rw [evaluate, hlevels]
  show Evaluation.unary minus (.number x) = _
  rw [Evaluation.unary, hminus]

/-- A number that is printed without an exponent reads back as itself: in front of a semicolon
its text is a program of one statement, which evaluates to the number again. Two levels are enough
to read it and to evaluate it, one for a sign and one for the numeral. -/
theorem printed_numbers_read_back (x : Float)
    (h : x = 0 ∨ x = -0 ∨ ((1e-4 : Float) ≤ x.abs ∧ x.abs < 1e16)) :
    ∃ tokens e, Token.scan ((Value.number x).text ++ ";") = .ok tokens ∧
      (∀ levels, 2 ≤ levels → Program.ofTokens levels tokens =
        { parts := [.statement { form := .expression, expr := e }], tooDeep := false }) ∧
      ∀ m : Machine, 2 ≤ m.levels → m.evaluate e = .ok (.number x) := by
  have hpointed := codeOf_pointed h
  obtain ⟨u, htext, hwrites⟩ := exists_toList_text_eq hpointed.lt_infinity
  have hspells := hwrites.spells hpointed
  have hx := ofCode_codeOf x
  have hsource : ((Value.number x).text ++ ";").toList = signed (isNegative x) u ++ [';'] := by
    rw [String.toList_append, htext]
    rfl
  have hdenoted {number : Token} {v : Value} (hliteral : number.literal = some v)
      (hnumber : number.kind = .number) : number.denoted = v := by
    simp [Token.denoted, hnumber, hliteral]
  unfold Token.scan
  rw [hsource]
  cases hsign : isNegative x with
  | false =>
      have hvalue : ofCode .positive (codeOf x) = x := by
        rw [signOf, hsign] at hx
        exact hx
      rw [hvalue] at hspells
      obtain ⟨number, semicolon, last, hscan, hnumber, hliteral, hsemicolon, hlast⟩ :=
        exists_scan_numeral hspells
      refine ⟨_, .literal number.denoted, hscan, fun levels hlevels => ?_, fun m hm => ?_⟩
      · obtain ⟨more, rfl⟩ := Nat.exists_eq_add_of_le' hlevels
        exact ofTokens_number hnumber hsemicolon hlast
      · rw [hdenoted hliteral hnumber]
        exact Machine.evaluate_literal (Nat.le_of_succ_le hm) _
  | true =>
      have hvalue : -ofCode .positive (codeOf x) = x := by
        rw [signOf, hsign] at hx
        rw [neg_ofCode hpointed.lt_infinity.le]
        exact hx
      obtain ⟨minus, number, semicolon, last, hscan, hminus, hnumber, hliteral, hsemicolon,
        hlast⟩ :=
        exists_scan_minus hspells
      refine ⟨_, .unary minus (.literal number.denoted), hscan, fun levels hlevels => ?_,
        fun m hm => ?_⟩
      · obtain ⟨more, rfl⟩ := Nat.exists_eq_add_of_le' hlevels
        exact ofTokens_minus hminus hnumber hsemicolon hlast
      · rw [hdenoted hliteral hnumber, Machine.evaluate_minus hm hminus, hvalue]

/-- The negative zero, and a whole number past `2 ^ 53`. -/
theorem printed_numbers_read_back_cases :
    (∃ tokens e, Token.scan "-0.0;" = .ok tokens ∧
      Program.ofTokens 2 tokens =
        { parts := [.statement { form := .expression, expr := e }], tooDeep := false } ∧
      (Machine.initial 2).evaluate e = .ok (.number (-0))) ∧
    ∃ tokens e, Token.scan "9007199254740994;" = .ok tokens ∧
      Program.ofTokens 2 tokens =
        { parts := [.statement { form := .expression, expr := e }], tooDeep := false } ∧
      (Machine.initial 2).evaluate e = .ok (.number 9007199254740994) := by
  have hzero : (Value.number (-0)).text ++ ";" = "-0.0;" := by decide +kernel
  have hwhole : (Value.number 9007199254740994).text ++ ";" = "9007199254740994;" := by
    decide +kernel
  obtain ⟨tokens, e, hscan, hprogram, hvalue⟩ := printed_numbers_read_back (-0) (.inr (.inl rfl))
  obtain ⟨tokens', e', hscan', hprogram', hvalue'⟩ :=
    printed_numbers_read_back 9007199254740994 (.inr (.inr (by decide +kernel)))
  rw [hzero] at hscan
  rw [hwhole] at hscan'
  have htwo : 2 ≤ (Machine.initial 2).levels := Nat.le_refl 2
  exact ⟨⟨tokens, e, hscan, hprogram 2 htwo, hvalue _ htwo⟩, tokens', e', hscan',
    hprogram' 2 htwo, hvalue' _ htwo⟩

end MiniLox
