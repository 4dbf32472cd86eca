import MiniLox.Proofs.Grammar.Runs

/-!
How deep the trees of a text are nested. Signs and parentheses take a level of
nesting each and operators between operands take none, so a tree that is read
within some levels has no more signs and parentheses around any of its parts than
these levels allow. How high it is does not follow: a row of operators makes a tree
as high as the row is long.
-/

namespace MiniLox

/-- The levels of nesting that a tree takes: one for each sign and each pair of
parentheses around a part, and one for the part itself. -/
def Expr.nesting : Expr → Nat
  | literal _ => 1
  | group inner => inner.nesting + 1
  | name _ => 1
  | unary _ right => right.nesting + 1
  | binary left _ right => max left.nesting right.nesting
  | misplaced _ body => body.nesting

namespace Grammar

open Rule

/-- No tree that the rule reads takes more levels. -/
structure NestsWithin (r : Rule Expr) (levels : Nat) : Prop where
  nesting_le : ∀ {ts rest : List Token} {e : Expr}, r.read ts = .ok (e, rest) →
    e.nesting ≤ levels

section Rules

variable {operators : Kind → Bool} {operand r : Rule Expr} {levels : Nat} {left e : Expr}
  {ts rest : List Token}

theorem chainRest_nesting_le (h : NestsWithin operand levels) (hleft : left.nesting ≤ levels)
    (hread : chainRest operators operand left ts = .ok (e, rest)) : e.nesting ≤ levels := by
  fun_induction chainRest operators operand left ts with
  | case1 left =>
      cases hread
      exact hleft
  | case2 left t ts ht right mid hright ih =>
      exact ih (Nat.max_le.mpr ⟨hleft, h.nesting_le hright⟩) hread
  | case3 => contradiction
  | case4 left t ts ht =>
      cases hread
      exact hleft

theorem NestsWithin.chain (h : NestsWithin operand levels) :
    NestsWithin (chain operators operand) levels where
  nesting_le hread := by
    obtain ⟨left, mid, hleft, hrest⟩ := chain_eq_ok.mp hread
    exact chainRest_nesting_le h (h.nesting_le hleft) hrest

theorem NestsWithin.binaryOver (h : NestsWithin r levels) : NestsWithin (binaryOver r) levels :=
  h.chain.chain.chain.chain

theorem NestsWithin.grouped (h : NestsWithin r levels) :
    NestsWithin (grouped r) (levels + 1) where
  nesting_le hread := by
    simp only [Grammar.grouped, andThen_eq_ok, map_eq_ok] at hread
    obtain ⟨opening, _, -, inner, _, hinner, closing, -, rfl⟩ := hread
    exact Nat.succ_le_succ (h.nesting_le hinner)

theorem NestsWithin.signed (h : NestsWithin r levels) :
    NestsWithin (signed r) (levels + 1) where
  nesting_le hread := by
    simp only [Grammar.signed, andThen_eq_ok, map_eq_ok] at hread
    obtain ⟨sign, _, -, right, hright, rfl⟩ := hread
    exact Nat.succ_le_succ (h.nesting_le hright)

theorem NestsWithin.primaryOver (h : NestsWithin r levels) :
    NestsWithin (primaryOver r) (levels + 1) where
  nesting_le {ts rest e} hread := by
    cases ts with
    | nil => contradiction
    | cons t ts =>
        rw [primaryOver_read_cons] at hread
        split at hread
        · cases hread
          exact Nat.succ_pos levels
        split at hread
        · cases hread
          exact Nat.succ_pos levels
        split at hread
        · exact h.grouped.nesting_le hread
        · contradiction

/-- What is read within some levels of nesting takes no more of them. -/
theorem nestsWithin_unary (levels : Nat) : NestsWithin (unary levels) levels := by
  induction levels with
  | zero => exact ⟨fun hread => nomatch hread⟩
  | succ levels ih =>
      refine ⟨fun {ts rest e} hread => ?_⟩
      cases ts with
      | nil => contradiction
      | cons t ts =>
          rw [unary_read_cons] at hread
          split at hread
          · exact ih.signed.nesting_le hread
          · exact ih.binaryOver.primaryOver.nesting_le hread

end Rules

/-! ### Statements -/

section Statements

variable {levels : Nat} {last : Token} {ts rest : List Token} {s : Stmt}

theorem closed_nesting_le {form : Form} {expected : Expectation}
    (hread : (closed levels form expected).read ts = .ok (s, rest)) :
    s.expr.nesting ≤ levels := by
  simp only [closed, andThen_eq_ok, map_eq_ok] at hread
  obtain ⟨e, _, hvalue, semicolon, -, rfl⟩ := hread
  exact (nestsWithin_unary levels).binaryOver.nesting_le hvalue

theorem statement_nesting_le (hread : (statement levels).read ts = .ok (s, rest)) :
    s.expr.nesting ≤ levels := by
  rw [statement, byHead_read] at hread
  revert hread
  split
  · intro hread
    simp only [varDeclaration, andThen_eq_ok] at hread
    obtain ⟨keyword, _, -, name, _, -, equal, _, -, hvalue⟩ := hread
    exact closed_nesting_le hvalue
  · intro hread
    simp only [printStatement, andThen_eq_ok] at hread
    obtain ⟨keyword, _, -, hvalue⟩ := hread
    exact closed_nesting_le hvalue
  · exact closed_nesting_le

theorem Program.nesting_le_of_mem_before (hs : s ∈ (ofTokensBefore last levels ts).statements) :
    s.expr.nesting ≤ levels := by
  fun_induction ofTokensBefore last levels ts with
  | case1 => contradiction
  | case2 t ts first rest hread ih =>
      rw [statements_cons_statement] at hs
      rcases List.mem_cons.mp hs with rfl | hs
      · exact statement_nesting_le hread
      · exact ih hs
  | case3 t ts rest x hread error =>
      rename_i ih
      rw [statements_cons_mistake] at hs
      exact ih hs
  | case4 => contradiction

/-- No statement of a text is nested deeper than the limit. -/
theorem Program.nesting_le_of_mem {tokens : List Token}
    (hs : s ∈ (ofTokens levels tokens).statements) :
    s.expr.nesting ≤ levels :=
  nesting_le_of_mem_before hs

end Statements

/-! ### Texts that are not nested too deeply -/

/-- Fewer tokens than this are not nested too deeply for the rule. -/
structure Suffices {α : Type} (n : Nat) (r : Rule α) : Prop where
  ne_tooDeep : ∀ {ts : List Token}, ts.length < n → r.read ts ≠ .error .tooDeep

section Lengths

variable {α β : Type} {n : Nat} {accepts operators : Kind → Bool} {x : Expectation} {r : Rule α}
  {next : α → Rule β} {operand : Rule Expr} {left : Expr} {ts : List Token}

theorem suffices_token : Suffices n (token accepts x) := ⟨fun _ => token_ne_tooDeep _⟩

theorem Suffices.map (h : Suffices n r) (f : α → β) : Suffices n (r.map f) :=
  ⟨fun hts hread => h.ne_tooDeep hts (map_eq_error.mp hread)⟩

/-- The second rule has at least one token less to read. -/
theorem Suffices.andThen (h : Suffices n r) (hnext : ∀ a, Suffices (n - 1) (next a)) :
    Suffices n (r.andThen next) where
  ne_tooDeep {ts} hts hread := by
    rcases andThen_eq_error.mp hread with hfirst | ⟨a, mid, hfirst, hsecond⟩
    · exact h.ne_tooDeep hts hfirst
    · have hmid := r.rest_lt hfirst
      exact (hnext a).ne_tooDeep (by omega) hsecond

theorem chainRest_ne_tooDeep (h : Suffices n operand) (hts : ts.length < n) :
    chainRest operators operand left ts ≠ .error .tooDeep := by
  fun_induction chainRest operators operand left ts with
  | case1 =>
      intro hread
      contradiction
  | case2 left t ts ht right mid hright ih =>
      have hmid := operand.rest_lt hright
      rw [List.length_cons] at hts
      exact ih (by omega)
  | case3 left t ts ht failure hright =>
      intro hread
      rw [Except.error.inj hread] at hright
      exact h.ne_tooDeep (Nat.lt_of_succ_lt hts) hright
  | case4 =>
      intro hread
      contradiction

theorem Suffices.chain (h : Suffices n operand) : Suffices n (chain operators operand) where
  ne_tooDeep {ts} hts hread := by
    rcases chain_eq_error.mp hread with hleft | ⟨left, mid, hleft, hrest⟩
    · exact h.ne_tooDeep hts hleft
    · have hmid := operand.rest_lt hleft
      exact chainRest_ne_tooDeep h (by omega) hrest

theorem Suffices.binaryOver (h : Suffices n operand) : Suffices n (binaryOver operand) :=
  h.chain.chain.chain.chain

theorem Suffices.grouped (h : Suffices n operand) : Suffices (n + 1) (grouped operand) :=
  suffices_token.andThen fun _ => h.andThen fun _ => suffices_token.map _

theorem Suffices.signed (h : Suffices n operand) : Suffices (n + 1) (signed operand) :=
  suffices_token.andThen fun _ => h.map _

theorem Suffices.primaryOver (h : Suffices n operand) : Suffices (n + 1) (primaryOver operand) where
  ne_tooDeep {ts} hts hread := by
    cases ts with
    | nil => exact none_ne_tooDeep [] hread
    | cons t ts =>
        rw [primaryOver_read_cons] at hread
        split at hread
        · contradiction
        split at hread
        · contradiction
        split at hread
        · exact h.grouped.ne_tooDeep hts hread
        · exact none_ne_tooDeep (t :: ts) hread

/-- Every level of nesting takes a token. -/
theorem suffices_unary (levels : Nat) : Suffices levels (unary levels) := by
  induction levels with
  | zero => exact ⟨fun hts => absurd hts (Nat.not_lt_zero _)⟩
  | succ levels ih =>
      refine ⟨fun {ts} hts hread => ?_⟩
      cases ts with
      | nil => exact none_ne_tooDeep [] hread
      | cons t ts =>
          rw [unary_read_cons] at hread
          split at hread
          · exact ih.signed.ne_tooDeep hts hread
          · exact ih.binaryOver.primaryOver.ne_tooDeep hts hread

theorem suffices_closed (levels : Nat) (form : Form) (expected : Expectation) :
    Suffices levels (closed levels form expected) :=
  (suffices_unary levels).binaryOver.andThen fun _ => suffices_token.map _

theorem suffices_statement (levels : Nat) : Suffices levels (statement levels) where
  ne_tooDeep {ts} hts := by
    have hclosed (form : Form) (x : Expectation) (m : Nat) (hm : m ≤ levels) :
        Suffices m (closed levels form x) :=
      ⟨fun hts => (suffices_closed levels form x).ne_tooDeep (Nat.lt_of_lt_of_le hts hm)⟩
    rw [statement, byHead_read]
    split
    · exact (suffices_token.andThen fun _ => suffices_token.andThen fun _ =>
        suffices_token.andThen fun _ => hclosed _ _ _ (by omega)).ne_tooDeep hts
    · exact (suffices_token.andThen fun _ => hclosed _ _ _ (by omega)).ne_tooDeep hts
    · exact (hclosed _ _ _ (Nat.le_refl levels)).ne_tooDeep hts

/-- A text with fewer tokens than there are levels is not nested too deeply. -/
theorem Program.tooDeep_eq_false {levels : Nat} {last : Token} (hts : ts.length < levels) :
    (ofTokensBefore last levels ts).tooDeep = false := by
  fun_induction ofTokensBefore last levels ts with
  | case1 => rfl
  | case2 t ts first rest hread ih =>
      have hrest := (statement levels).rest_lt hread
      exact ih (by omega)
  | case3 t ts rest x hread error =>
      rename_i ih
      have hrest := (statement levels).mismatch_le hread
      have hresume := (resume_suffix rest).length_le
      exact ih (by omega)
  | case4 t ts hread => exact absurd hread ((suffices_statement levels).ne_tooDeep hts)

end Lengths

end Grammar

end MiniLox
