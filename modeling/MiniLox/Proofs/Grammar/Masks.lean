import MiniLox.Proofs.Grammar.Runs

/-!
What the grammar does not see. A mask puts other tokens in the place of the
given ones, of the same kinds except that `true` and `false` may stand for
each other. The grammar does not notice: it makes of masked tokens what it
makes of the tokens themselves, with the mask over the result. So what it
makes of two texts differs in nothing but what a mask hides, if only what the
mask hides is different in their tokens.
-/

namespace MiniLox

/-- The kinds up to which the grammar tells tokens apart. -/
def Kind.base : Kind → Kind
  | falseWord => trueWord
  | k => k

/-- A test that takes `true` and `false` for the same sees no more of a kind
than its base. -/
theorem Kind.apply_base {α : Type} {test : Kind → α} (htest : test falseWord = test trueWord)
    (k : Kind) : test k.base = test k := by
  unfold base
  split
  · exact htest.symm
  · rfl

namespace Grammar

open Rule

/-- Tokens that stand for others, and values that stand for those of the
others. -/
structure Mask where
  token : Token → Token
  value : Value → Value
  base_kind : ∀ t, (token t).kind.base = t.kind.base
  denoted : ∀ t, t.kind.isLiteral = true → (token t).denoted = value t.denoted
  /-- What closes a list of tokens that has no end of its own has nothing to
  hide. -/
  closing : token { kind := .endOfText, lexeme := "", line := 0 } =
    { kind := .endOfText, lexeme := "", line := 0 }

namespace Mask

variable (g : Mask)

/-- A test that takes `true` and `false` for the same sees nothing of a mask. -/
theorem test_kind {α : Type} {test : Kind → α} (htest : test .falseWord = test .trueWord)
    (t : Token) : test (g.token t).kind = test t.kind := by
  rw [← Kind.apply_base htest, g.base_kind, Kind.apply_base htest]

theorem kind_eq_iff {k : Kind} (hk : (.falseWord = k) = (.trueWord = k)) (t : Token) :
    (g.token t).kind = k ↔ t.kind = k := by
  have h : ((g.token t).kind = k) = (t.kind = k) := @test_kind g Prop (· = k) hk t
  rw [h]

/-! ### Masked trees -/

def form : Form → Form
  | .expression => .expression
  | .print => .print
  | .var name => .var (g.token name)

def expr : Expr → Expr
  | .literal value => .literal (g.value value)
  | .group inner => .group (expr inner)
  | .name token => .name (g.token token)
  | .unary operator right => .unary (g.token operator) (expr right)
  | .binary left operator right => .binary (expr left) (g.token operator) (expr right)
  | .misplaced f body => .misplaced (g.form f) (expr body)

def stmt (s : Stmt) : Stmt where
  form := g.form s.form
  expr := g.expr s.expr

def error (e : SyntaxError) : SyntaxError where
  token := g.token e.token
  expected := e.expected

def part : Part → Part
  | .statement s => .statement (g.stmt s)
  | .mistake e => .mistake (g.error e)

def program (p : Program) : Program where
  parts := p.parts.map g.part
  tooDeep := p.tooDeep

def result {α β : Type} (f : α → β) : Result α → Result β
  | .ok (a, rest) => .ok (f a, rest.map g.token)
  | .error (.mismatch rest x) => .error (.mismatch (rest.map g.token) x)
  | .error .tooDeep => .error .tooDeep

/-- What the second rule reads from masked tokens is what the first one reads
from the tokens, under the mask. -/
def Commutes {α β : Type} (f : α → β) (r : Rule α) (r' : Rule β) : Prop :=
  ∀ ts, r'.read (ts.map g.token) = g.result f (r.read ts)

section Combinators

variable {α β γ δ : Type} {g} {f : α → β} {f' : γ → δ} {r : Rule α} {r' : Rule β}
  {accepts : Kind → Bool} {x : Expectation}

theorem commutes_token (haccepts : accepts .falseWord = accepts .trueWord) :
    g.Commutes g.token (Rule.token accepts x) (Rule.token accepts x) := by
  intro ts
  cases ts with
  | nil => rfl
  | cons t ts =>
      have htest : accepts (g.token t).kind = accepts t.kind := g.test_kind haccepts t
      by_cases ht : accepts t.kind = true
      · simp [Rule.token, htest, ht, result]
      · simp [Rule.token, htest, ht, result]

theorem commutes_kind {k : Kind} (hk : (Kind.falseWord == k) = (Kind.trueWord == k)) :
    g.Commutes g.token (kind k x) (kind k x) :=
  commutes_token hk

theorem Commutes.map (h : g.Commutes f r r') {k : α → γ} {k' : β → δ}
    (hk : ∀ a, k' (f a) = f' (k a)) : g.Commutes f' (r.map k) (r'.map k') := by
  intro ts
  simp only [Rule.map, h ts]
  cases r.read ts with
  | ok p =>
      obtain ⟨a, rest⟩ := p
      simp [result, hk]
  | error e => cases e <;> rfl

theorem Commutes.andThen (h : g.Commutes f r r') {next : α → Rule γ} {next' : β → Rule δ}
    (hnext : ∀ a, g.Commutes f' (next a) (next' (f a))) :
    g.Commutes f' (r.andThen next) (r'.andThen next') := by
  intro ts
  simp only [Rule.andThen, h ts]
  cases r.read ts with
  | ok p =>
      obtain ⟨a, rest⟩ := p
      exact hnext a rest
  | error e => cases e <;> rfl

end Combinators

/-! ### Expressions -/

section Expressions

variable {g} {operators : Kind → Bool} {operand r : Rule Expr}

theorem chainRest_map (hoperators : operators .falseWord = operators .trueWord)
    (h : g.Commutes g.expr operand operand) (left : Expr) (ts : List Token) :
    chainRest operators operand (g.expr left) (ts.map g.token) =
      g.result g.expr (chainRest operators operand left ts) := by
  fun_induction chainRest operators operand left ts with
  | case1 left =>
      rw [List.map_nil, chainRest]
      rfl
  | case2 left t ts ht right rest hright ih =>
      have ht' : operators (g.token t).kind = true := by rw [g.test_kind hoperators, ht]
      have hright' : operand.read (ts.map g.token) = .ok (g.expr right, rest.map g.token) := by
        rw [h, hright]
        rfl
      rw [List.map_cons, chainRest_step ht' hright']
      exact ih
  | case3 left t ts ht e hright =>
      have ht' : operators (g.token t).kind = true := by rw [g.test_kind hoperators, ht]
      have hright' : operand.read (ts.map g.token) = g.result g.expr (.error e) := by
        rw [h, hright]
      cases e with
      | mismatch rest x => exact chainRest_error ht' hright'
      | tooDeep => exact chainRest_error ht' hright'
  | case4 left t ts ht =>
      have ht' : operators (g.token t).kind = false := by
        rw [g.test_kind hoperators]
        simpa using ht
      exact chainRest_stop ht'

theorem Commutes.chain (hoperators : operators .falseWord = operators .trueWord)
    (h : g.Commutes g.expr operand operand) :
    g.Commutes g.expr (chain operators operand) (chain operators operand) := by
  intro ts
  simp only [Rule.chain, h ts]
  cases operand.read ts with
  | ok p =>
      obtain ⟨left, rest⟩ := p
      exact chainRest_map hoperators h left rest
  | error e => cases e <;> rfl

theorem Commutes.binaryOver (h : g.Commutes g.expr r r) :
    g.Commutes g.expr (binaryOver r) (binaryOver r) :=
  .chain rfl (.chain rfl (.chain rfl (.chain rfl h)))

theorem Commutes.grouped (h : g.Commutes g.expr r r) :
    g.Commutes g.expr (grouped r) (grouped r) :=
  (commutes_kind rfl).andThen fun _ =>
    h.andThen fun _ => (commutes_kind rfl).map fun _ => rfl

theorem Commutes.primaryOver (h : g.Commutes g.expr r r) :
    g.Commutes g.expr (primaryOver r) (primaryOver r) := by
  intro ts
  cases ts with
  | nil => rfl
  | cons t ts =>
      have hliteral : (g.token t).kind.isLiteral = t.kind.isLiteral := g.test_kind rfl t
      have hname := g.kind_eq_iff (by simp : (Kind.falseWord = .identifier) = _) t
      have hparen := g.kind_eq_iff (by simp : (Kind.falseWord = .leftParen) = _) t
      rw [List.map_cons, primaryOver_read_cons, primaryOver_read_cons, hliteral]
      by_cases hl : t.kind.isLiteral = true
      · rw [if_pos hl, if_pos hl, g.denoted t hl]
        rfl
      rw [if_neg hl, if_neg hl]
      by_cases hn : t.kind = .identifier
      · rw [if_pos hn, if_pos (hname.mpr hn)]
        rfl
      rw [if_neg hn, if_neg (mt hname.mp hn)]
      by_cases hp : t.kind = .leftParen
      · rw [if_pos hp, if_pos (hparen.mpr hp)]
        exact h.grouped (t :: ts)
      · rw [if_neg hp, if_neg (mt hparen.mp hp)]
        rfl

theorem Commutes.signed (h : g.Commutes g.expr r r) :
    g.Commutes g.expr (signed r) (signed r) :=
  (commutes_token rfl).andThen fun _ => h.map fun _ => rfl

theorem commutes_unary (levels : Nat) : g.Commutes g.expr (unary levels) (unary levels) := by
  induction levels with
  | zero => exact fun _ => rfl
  | succ levels ih =>
      intro ts
      cases ts with
      | nil => exact ih.binaryOver.primaryOver []
      | cons t ts =>
          -- A sign and a parenthesis leave one level less, of which it is known already.
          have hsign : (g.token t).kind.isUnary = t.kind.isUnary := g.test_kind rfl t
          rw [List.map_cons, unary_read_cons, unary_read_cons, hsign]
          by_cases hs : t.kind.isUnary = true
          · rw [if_pos hs, if_pos hs]
            exact ih.signed (t :: ts)
          · rw [if_neg hs, if_neg hs]
            exact ih.binaryOver.primaryOver (t :: ts)

end Expressions

/-! ### Statements -/

section Statements

variable {g} {levels : Nat}

theorem commutes_closed (form : Form) (expected : Expectation) :
    g.Commutes g.stmt (closed levels form expected) (closed levels (g.form form) expected) :=
  (commutes_unary levels).binaryOver.andThen fun _ => (commutes_kind rfl).map fun _ => rfl

theorem commutes_statement : g.Commutes g.stmt (statement levels) (statement levels) := by
  intro ts
  cases ts with
  | nil => exact commutes_closed .expression .semicolonAfterExpression []
  | cons t ts =>
      have hvar := g.kind_eq_iff (by simp : (Kind.falseWord = .varWord) = _) t
      have hprint := g.kind_eq_iff (by simp : (Kind.falseWord = .printWord) = _) t
      rw [List.map_cons, statement_read_cons, statement_read_cons]
      by_cases hv : t.kind = .varWord
      · rw [if_pos hv, if_pos (hvar.mpr hv)]
        have hread : g.Commutes g.stmt (varDeclaration levels) (varDeclaration levels) :=
          (commutes_kind rfl).andThen fun _ =>
            (commutes_kind rfl).andThen fun _ =>
              (commutes_kind rfl).andThen fun _ => commutes_closed _ _
        exact hread (t :: ts)
      rw [if_neg hv, if_neg (mt hvar.mp hv)]
      by_cases hp : t.kind = .printWord
      · rw [if_pos hp, if_pos (hprint.mpr hp)]
        have hread : g.Commutes g.stmt (printStatement levels) (printStatement levels) :=
          (commutes_kind rfl).andThen fun _ => commutes_closed _ _
        exact hread (t :: ts)
      · rw [if_neg hp, if_neg (mt hprint.mp hp)]
        exact commutes_closed .expression .semicolonAfterExpression (t :: ts)

end Statements

/-! ### Programs -/

theorem startsBehind_map (t : Token) (ts : List Token) :
    StartsBehind (g.token t) (ts.map g.token) ↔ StartsBehind t ts := by
  have hsemicolon := g.kind_eq_iff (by simp : (Kind.falseWord = .semicolon) = _) t
  have hstarts (u : Token) : (g.token u).kind.startsStatement = u.kind.startsStatement :=
    g.test_kind rfl u
  rw [StartsBehind, StartsBehind, hsemicolon]
  cases ts with
  | nil => simp
  | cons u us => simp [hstarts]

theorem resume_map (ts : List Token) : resume (ts.map g.token) = (resume ts).map g.token := by
  induction ts with
  | nil => rfl
  | cons t ts ih =>
      rw [List.map_cons]
      by_cases h : StartsBehind t ts
      · rw [resume_of_startsBehind h, resume_of_startsBehind ((g.startsBehind_map t ts).mpr h)]
      · rw [resume_of_not_startsBehind h,
          resume_of_not_startsBehind (mt (g.startsBehind_map t ts).mp h), ih]

theorem ofTokensBefore_map (last : Token) (levels : Nat) (ts : List Token) :
    Program.ofTokensBefore (g.token last) levels (ts.map g.token) =
      g.program (Program.ofTokensBefore last levels ts) := by
  fun_induction Program.ofTokensBefore last levels ts with
  | case1 =>
      rw [List.map_nil, Program.ofTokensBefore_nil]
      rfl
  | case2 t ts s rest hread ih =>
      have hread' : (statement levels).read ((t :: ts).map g.token) =
          .ok (g.stmt s, rest.map g.token) := by
        rw [commutes_statement, hread]
        rfl
      rw [Program.ofTokensBefore_of_ok hread', ih]
      rfl
  | case3 t ts rest x hread error =>
      rename_i ih
      have hread' : (statement levels).read ((t :: ts).map g.token) =
          .error (.mismatch (rest.map g.token) x) := by
        rw [commutes_statement, hread]
        rfl
      have hne : (t :: ts).map g.token ≠ [] := List.cons_ne_nil _ _
      rw [Program.ofTokensBefore_of_mismatch hne hread', resume_map, ih]
      cases rest <;> rfl
  | case4 t ts hread =>
      have hread' : (statement levels).read ((t :: ts).map g.token) = .error .tooDeep := by
        rw [commutes_statement, hread]
        rfl
      have hne : (t :: ts).map g.token ≠ [] := List.cons_ne_nil _ _
      rw [Program.ofTokensBefore_of_tooDeep hne hread']
      rfl

/-- What is made of masked tokens is what is made of the tokens, under the
mask. -/
theorem ofTokens_map (levels : Nat) (tokens : List Token) :
    Program.ofTokens levels (tokens.map g.token) =
      g.program (Program.ofTokens levels tokens) := by
  have hend : ((fun t : Token => t.kind == .endOfText) ∘ g.token) =
      fun t => t.kind == .endOfText := by
    funext t
    exact @test_kind g Bool (· == .endOfText) rfl t
  have hnotEnd : ((fun t : Token => t.kind != .endOfText) ∘ g.token) =
      fun t => t.kind != .endOfText := by
    funext t
    exact @test_kind g Bool (· != .endOfText) rfl t
  have hlast : Program.lastOf (tokens.map g.token) = g.token (Program.lastOf tokens) := by
    rw [Program.lastOf, Program.lastOf, List.find?_map, hend]
    cases tokens.find? fun t => t.kind == .endOfText with
    | none => exact g.closing.symm
    | some last => rfl
  rw [Program.ofTokens, hlast, List.takeWhile_map, hnotEnd, ofTokensBefore_map]
  rfl

theorem statements_program (p : Program) :
    (g.program p).statements = p.statements.map g.stmt := by
  obtain ⟨parts, tooDeep⟩ := p
  rw [Program.statements, Program.statements, List.map_filterMap]
  show (parts.map g.part).filterMap _ = _
  rw [List.filterMap_map]
  congr 1
  funext part
  cases part <;> rfl

theorem errors_program (p : Program) : (g.program p).errors = p.errors.map g.error := by
  obtain ⟨parts, tooDeep⟩ := p
  rw [Program.errors, Program.errors, List.map_filterMap]
  show (parts.map g.part).filterMap _ = _
  rw [List.filterMap_map]
  congr 1
  funext part
  cases part <;> rfl

end Mask

end Grammar

end MiniLox
