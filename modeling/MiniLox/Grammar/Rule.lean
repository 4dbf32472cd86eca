import MiniLox.Tree.Basic

/-!
Rules of a grammar, read by recursive descent. A rule takes a phrase off the
front of a list of tokens. It says why it could not, and then where: the
tokens that are left begin with the offending one.

A rule carries two laws. Whatever it reads is at least one token, so a
repetition of rules ends; and it fails no further back than it started, so
recovery from an error moves forward. Rules are only made by the combinators
below, which keep both.
-/

namespace MiniLox.Grammar

inductive Expectation where
  | expression
  | closingParen
  | semicolonAfterValue
  | semicolonAfterExpression
  | semicolonAfterDeclaration
  | variableName
  | equalAfterName
deriving DecidableEq, Repr

def Expectation.message : Expectation → String
  | expression => "Expect expression."
  | closingParen => "Expect ')' after expression."
  | semicolonAfterValue => "Expect ';' after value."
  | semicolonAfterExpression => "Expect ';' after expression."
  | semicolonAfterDeclaration => "Expect ';' after variable declaration."
  | variableName => "Expect variable name."
  | equalAfterName => "Expect '=' after variable name."

/-- Why a rule reads nothing: the tokens do not go on as expected, or they
are nested too deeply to be read. -/
inductive Failure where
  | mismatch (rest : List Token) (expected : Expectation)
  | tooDeep

abbrev Result (α : Type) := Except Failure (α × List Token)

structure Rule (α : Type) where
  read : List Token → Result α
  rest_lt : ∀ {ts a rest}, read ts = .ok (a, rest) → rest.length < ts.length
  mismatch_le : ∀ {ts rest e}, read ts = .error (.mismatch rest e) → rest.length ≤ ts.length

namespace Rule

variable {α β : Type}

def token (accepts : Kind → Bool) (expected : Expectation) : Rule Token where
  read
    | [] => .error (.mismatch [] expected)
    | t :: ts => if accepts t.kind then .ok (t, ts) else .error (.mismatch (t :: ts) expected)
  rest_lt := by
    intro ts a rest h
    cases ts with
    | nil => simp at h
    | cons t ts =>
      simp only at h
      split at h
      · simp only [Except.ok.injEq, Prod.mk.injEq] at h
        simp [← h.2]
      · simp at h
  mismatch_le := by
    intro ts rest e h
    cases ts with
    | nil =>
      simp only [Except.error.injEq, Failure.mismatch.injEq] at h
      simp [← h.1]
    | cons t ts =>
      simp only at h
      split at h
      · simp at h
      · simp only [Except.error.injEq, Failure.mismatch.injEq] at h
        simp [← h.1]

def kind (k : Kind) (expected : Expectation) : Rule Token := token (· == k) expected

/-- The rule that reads nothing: it fails at the first token. -/
def none (expected : Expectation) : Rule α where
  read ts := .error (.mismatch ts expected)
  rest_lt := by simp
  mismatch_le := by
    intro ts rest e h
    simp only [Except.error.injEq, Failure.mismatch.injEq] at h
    simp [← h.1]

/-- The rule beyond the last level of nesting. -/
def tooDeep : Rule α where
  read _ := .error .tooDeep
  rest_lt := by simp
  mismatch_le := by simp

def map (r : Rule α) (f : α → β) : Rule β where
  read ts :=
    match r.read ts with
    | .ok (a, rest) => .ok (f a, rest)
    | .error e => .error e
  rest_lt := by
    intro ts b rest h
    split at h
    · next a rest' hr =>
      simp only [Except.ok.injEq, Prod.mk.injEq] at h
      exact h.2 ▸ r.rest_lt hr
    · simp at h
  mismatch_le := by
    intro ts rest e h
    split at h
    · simp at h
    · next hr =>
      simp only [Except.error.injEq] at h
      exact r.mismatch_le (h ▸ hr)

def andThen (r : Rule α) (next : α → Rule β) : Rule β where
  read ts :=
    match r.read ts with
    | .ok (a, rest) => (next a).read rest
    | .error e => .error e
  rest_lt := by
    intro ts b rest h
    split at h
    · next a rest' hr =>
      have := r.rest_lt hr
      have := (next a).rest_lt h
      omega
    · simp at h
  mismatch_le := by
    intro ts rest e h
    split at h
    · next a rest' hr =>
      have := r.rest_lt hr
      have := (next a).mismatch_le h
      omega
    · next hr =>
      simp only [Except.error.injEq] at h
      exact r.mismatch_le (h ▸ hr)

def byHead (choose : Option Kind → Rule α) : Rule α where
  read ts := (choose (ts.head?.map Token.kind)).read ts
  rest_lt := fun h => (choose _).rest_lt h
  mismatch_le := fun h => (choose _).mismatch_le h

/-! ### Chains of operators

Operators of one level associate to the left: the expression read so far
becomes the left operand of the next operator. -/

/-- The rest of a chain whose beginning has been read. -/
def chainRest (operators : Kind → Bool) (operand : Rule Expr) (left : Expr) :
    List Token → Result Expr
  | [] => .ok (left, [])
  | t :: ts =>
    if operators t.kind then
      match _h : operand.read ts with
      | .ok (right, rest) => chainRest operators operand (.binary left t right) rest
      | .error e => .error e
    else .ok (left, t :: ts)
termination_by ts => ts.length
decreasing_by
  have := operand.rest_lt _h
  simp only [List.length_cons]
  omega

theorem chainRest_rest_le (operators : Kind → Bool) (operand : Rule Expr) (left : Expr)
    (ts : List Token) {a : Expr} {rest : List Token}
    (h : chainRest operators operand left ts = .ok (a, rest)) : rest.length ≤ ts.length := by
  fun_induction chainRest operators operand left ts with
  | case1 left =>
    simp only [Except.ok.injEq, Prod.mk.injEq] at h
    simp [← h.2]
  | case2 left t ts _ right rest' hr ih =>
    have := operand.rest_lt hr
    have := ih h
    simp only [List.length_cons]
    omega
  | case3 => simp at h
  | case4 left t ts _ =>
    simp only [Except.ok.injEq, Prod.mk.injEq] at h
    simp [← h.2]

theorem chainRest_mismatch_le (operators : Kind → Bool) (operand : Rule Expr) (left : Expr)
    (ts : List Token) {rest : List Token} {e : Expectation}
    (h : chainRest operators operand left ts = .error (.mismatch rest e)) :
    rest.length ≤ ts.length := by
  fun_induction chainRest operators operand left ts with
  | case1 => simp at h
  | case2 left t ts _ right rest' hr ih =>
    have := operand.rest_lt hr
    have := ih h
    simp only [List.length_cons]
    omega
  | case3 left t ts _ e' hr =>
    simp only [Except.error.injEq] at h
    have := operand.mismatch_le (h ▸ hr)
    simp only [List.length_cons]
    omega
  | case4 => simp at h

/-- Operands of one level, with operators between them. -/
def chain (operators : Kind → Bool) (operand : Rule Expr) : Rule Expr where
  read ts :=
    match operand.read ts with
    | .ok (left, rest) => chainRest operators operand left rest
    | .error e => .error e
  rest_lt := by
    intro ts a rest h
    split at h
    · next left rest' hr =>
      have := operand.rest_lt hr
      have := chainRest_rest_le operators operand left rest' h
      omega
    · simp at h
  mismatch_le := by
    intro ts rest e h
    split at h
    · next left rest' hr =>
      have := operand.rest_lt hr
      have := chainRest_mismatch_le operators operand left rest' h
      omega
    · next hr =>
      simp only [Except.error.injEq] at h
      exact operand.mismatch_le (h ▸ hr)

end Rule

end MiniLox.Grammar
