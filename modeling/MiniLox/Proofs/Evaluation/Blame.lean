import MiniLox.Machine
import MiniLox.Proofs.Grammar.Runs

/-!
What a failure shows. An expression fails because one of its operands fails
or, with both operands evaluated, because of its own operator. So the token of
an error is an operator or a name of the tree, and if the tree comes out of a
text that token is one of the text. No tree of a text has an operator that is
unknown.
-/

namespace MiniLox

/-- The kinds of the tokens that an error can show. -/
def Kind.canFail (k : Kind) : Bool :=
  k == identifier || k.isUnary || k.isEquality || k.isComparison || k.isAdditive
    || k.isMultiplicative

open Evaluation
open Grammar hiding Failure

namespace Evaluation

theorem bind_eq_error {α β : Type} {x : Except Failure α} {f : α → Except Failure β}
    {failure : Failure} :
    (x >>= f) = .error failure ↔
      x = .error failure ∨ ∃ a, x = .ok a ∧ f a = .error failure := by
  cases x <;> simp [bind, Except.bind]

variable {operator : Token} {left right : Value} {failure : Failure}

theorem unary_eq_error (h : unary operator right = .error failure) :
    (∃ fault, failure = .error { token := operator, fault := fault }) ∨
      operator.kind.isUnary = false := by
  unfold unary at h
  split at h
  · contradiction
  · split at h
    · contradiction
    · cases h
      exact .inl ⟨_, rfl⟩
  · next hbang hminus =>
      refine .inr ?_
      simp only [Kind.isUnary, Bool.or_eq_false_iff, beq_eq_false_iff_ne]
      exact ⟨hbang, hminus⟩

theorem onNumbers_eq_error {apply : Float → Float → Value}
    (h : onNumbers operator apply left right = .error failure) :
    ∃ fault, failure = .error { token := operator, fault := fault } := by
  unfold onNumbers at h
  split at h
  · contradiction
  · cases h
    exact ⟨_, rfl⟩

theorem add_eq_error (h : add operator left right = .error failure) :
    ∃ fault, failure = .error { token := operator, fault := fault } := by
  unfold add at h
  split at h
  · contradiction
  · contradiction
  · cases h
    exact ⟨_, rfl⟩

/-- The operators that are not known between operands belong to no tier. -/
theorem binary_eq_error (h : binary operator left right = .error failure) :
    (∃ fault, failure = .error { token := operator, fault := fault }) ∨
      ∀ tier : Tier, tier.accepts operator.kind = false := by
  unfold binary at h
  split at h
  case h_11 =>
    refine .inr fun tier => ?_
    cases tier <;> simp_all [Tier.accepts, Kind.isEquality, Kind.isComparison, Kind.isAdditive,
      Kind.isMultiplicative]
  · contradiction
  · contradiction
  · exact .inl (add_eq_error h)
  all_goals exact .inl (onNumbers_eq_error h)

end Evaluation

namespace Expr

variable {lookup : String → Option Value} {levels : Nat} {operator : Token} {left right : Expr}
  {failure : Failure}

/-- The operators and the names of a tree. -/
def tokens : Expr → List Token
  | literal _ => []
  | group inner => inner.tokens
  | name token => [token]
  | unary operator right => operator :: right.tokens
  | binary left operator right => left.tokens ++ operator :: right.tokens
  | misplaced _ body => body.tokens

theorem SpelledBy.mem_of_mem_tokens {e : Expr} {ts : List Token} (h : e.SpelledBy ts) {t : Token}
    (ht : t ∈ e.tokens) : t ∈ ts := by
  induction h with
  | literal token => contradiction
  | group opening closing hinner ih => simp [ih ht]
  | name token => exact ht
  | unary operator hright ih =>
      rcases List.mem_cons.mp ht with rfl | ht
      · exact List.mem_cons_self ..
      · exact List.mem_cons_of_mem operator (ih ht)
  | binary operator hleft hright ihleft ihright =>
      rcases List.mem_append.mp ht with ht | ht
      · exact List.mem_append_left _ (ihleft ht)
      · rcases List.mem_cons.mp ht with rfl | ht
        · simp
        · simp [ihright ht]

theorem Layered.canFail_of_mem {e : Expr} (h : e.Layered) {t : Token} (ht : t ∈ e.tokens) :
    t.kind.canFail = true := by
  induction e with
  | literal value => contradiction
  | group inner ih => exact ih h ht
  | name token =>
      obtain rfl := List.mem_singleton.mp ht
      have hkind : t.kind = .identifier := h
      rw [hkind]
      rfl
  | unary operator right ih =>
      obtain ⟨hoperator, hright, -⟩ := h
      rcases List.mem_cons.mp ht with rfl | ht
      · simp [Kind.canFail, hoperator]
      · exact ih hright ht
  | binary left operator right ihleft ihright =>
      obtain ⟨haccepts, hleft, hright, -⟩ := h
      rcases List.mem_append.mp ht with ht | ht
      · exact ihleft hleft ht
      · rcases List.mem_cons.mp ht with rfl | ht
        · revert haccepts
          cases t.kind.tier <;> simp_all [Tier.accepts, Kind.canFail]
        · exact ihright hright ht
  | misplaced form body => exact h.elim

/-- The tree of a text fails at one of its operators or names, unless it is
too high. -/
theorem Layered.evaluate_eq_error {e : Expr} (h : e.Layered)
    (hfails : e.evaluate lookup levels = .error failure) :
    failure = .tooDeep ∨
      ∃ error : RuntimeError, failure = .error error ∧ error.token ∈ e.tokens := by
  fun_induction evaluate lookup e levels with
  | case1 e =>
      cases hfails
      exact .inl rfl
  | case2 value levels => contradiction
  | case3 inner levels ih => exact ih h hfails
  | case4 token levels =>
      rw [meaning] at hfails
      split at hfails
      · contradiction
      · cases hfails
        exact .inr ⟨_, rfl, List.mem_singleton.mpr rfl⟩
  | case5 operator right levels ih =>
      obtain ⟨hoperator, hright, -⟩ := h
      rcases bind_eq_error.mp hfails with hfails | ⟨v, -, hfails⟩
      · rcases ih hright hfails with rfl | ⟨error, rfl, hmem⟩
        · exact .inl rfl
        · exact .inr ⟨error, rfl, List.mem_cons_of_mem operator hmem⟩
      · rcases unary_eq_error hfails with ⟨fault, rfl⟩ | hunknown
        · exact .inr ⟨_, rfl, List.mem_cons_self ..⟩
        · rw [hoperator] at hunknown
          contradiction
  | case6 left operator right levels ihleft ihright =>
      obtain ⟨haccepts, hleft, hright, -⟩ := h
      rcases bind_eq_error.mp hfails with hfails | ⟨v, -, hfails⟩
      · rcases ihleft hleft hfails with rfl | ⟨error, rfl, hmem⟩
        · exact .inl rfl
        · exact .inr ⟨error, rfl, List.mem_append_left _ hmem⟩
      rcases bind_eq_error.mp hfails with hfails | ⟨w, -, hfails⟩
      · rcases ihright hright hfails with rfl | ⟨error, rfl, hmem⟩
        · exact .inl rfl
        · exact .inr ⟨error, rfl, List.mem_append_right _ (List.mem_cons_of_mem operator hmem)⟩
      · rcases binary_eq_error hfails with ⟨fault, rfl⟩ | hunknown
        · exact .inr ⟨_, rfl, by simp [tokens]⟩
        · rw [hunknown] at haccepts
          contradiction
  | case7 form body levels => exact h.elim

end Expr

/-! ### Failures of a run -/

theorem Grammar.Declaration.exists_expr_spelledBy (d : Declaration) :
    ∃ ts, d.stmt.expr.SpelledBy ts ∧ ts ⊆ d.tokens := by
  cases d with
  | var keyword name equal value semicolon =>
      refine ⟨value.tokens, value.fits.spelledBy, fun t ht => ?_⟩
      simp [Declaration.tokens, ht]
  | print keyword value semicolon =>
      refine ⟨value.tokens, value.fits.spelledBy, fun t ht => ?_⟩
      simp [Declaration.tokens, ht]
  | expression value semicolon =>
      exact ⟨value.tokens, value.fits.spelledBy, List.subset_append_left _ _⟩

namespace Machine

variable {m : Machine} {s : Stmt} {ss : List Stmt} {v : Value} {failure : Evaluation.Failure}

theorem run_cons_of_ok (h : m.evaluate s.expr = .ok v) :
    m.run (s :: ss) =
      { (s.form.perform m v).1.run ss with
        printed := (s.form.perform m v).2 ++ ((s.form.perform m v).1.run ss).printed } := by
  simp only [run, execute, h]

theorem run_cons_of_error (h : m.evaluate s.expr = .error failure) :
    m.run (s :: ss) = { machine := m, failure := some failure } := by
  simp only [run, execute, h]

/-- What a run fails with is the failure of one of its statements. -/
theorem exists_of_run_failure (h : (m.run ss).failure = some failure) :
    ∃ s ∈ ss, ∃ at' : Machine, at'.levels = m.levels ∧ at'.evaluate s.expr = .error failure := by
  induction ss generalizing m with
  | nil => contradiction
  | cons s ss ih =>
      cases hvalue : m.evaluate s.expr with
      | error e =>
          rw [run_cons_of_error hvalue] at h
          obtain rfl := Option.some.inj h
          exact ⟨s, List.mem_cons_self .., m, rfl, hvalue⟩
      | ok v =>
          rw [run_cons_of_ok hvalue] at h
          obtain ⟨s', hs', m', hlevels, hfails⟩ := ih h
          exact ⟨s', List.mem_cons_of_mem s hs', m', by simp [hlevels], hfails⟩

/-- A run that fails does so whatever statements come after. -/
theorem run_append_failure (h : (m.run ss).failure = some failure) (later : List Stmt) :
    (m.run (ss ++ later)).failure = some failure := by
  induction ss generalizing m with
  | nil => contradiction
  | cons s ss ih =>
      rw [List.cons_append]
      cases hvalue : m.evaluate s.expr with
      | error e =>
          rw [run_cons_of_error hvalue] at h ⊢
          exact h
      | ok v =>
          rw [run_cons_of_ok hvalue] at h ⊢
          exact ih h

theorem failure_of_run_take {n : Nat} (h : (m.run (ss.take n)).failure = some failure) :
    (m.run ss).failure = some failure := by
  have hwhole := run_append_failure h (ss.drop n)
  rw [List.take_append_drop] at hwhole
  exact hwhole

/-- A program that comes out of a text fails at a token of the text, an
operator or a name, unless one of its trees is too high. -/
theorem run_failure_of_tokens {nesting : Nat} {tokens : List Token}
    (h : (m.run (Program.ofTokens nesting tokens).statements).failure = some failure) :
    failure = .tooDeep ∨ ∃ error : RuntimeError, failure = .error error ∧
      error.token ∈ tokens ∧ error.token.kind.canFail = true := by
  obtain ⟨s, hs, at', -, hfails⟩ := exists_of_run_failure h
  obtain ⟨d, rfl, hinfix⟩ := Program.exists_declaration_of_mem hs
  obtain ⟨-, hlayered⟩ := d.layered
  rcases hlayered.evaluate_eq_error hfails with rfl | ⟨error, rfl, hmem⟩
  · exact .inl rfl
  · obtain ⟨ts, hspelled, hsub⟩ := d.exists_expr_spelledBy
    exact .inr ⟨error, rfl, hinfix.subset (hsub (hspelled.mem_of_mem_tokens hmem)),
      hlayered.canFail_of_mem hmem⟩

theorem token_of_run_error {nesting : Nat} {tokens : List Token} {e : RuntimeError}
    (h : (m.run (Program.ofTokens nesting tokens).statements).failure = some (.error e)) :
    e.token ∈ tokens ∧ e.token.kind.canFail = true := by
  rcases run_failure_of_tokens h with hdeep | ⟨error, herror, hmem, hkind⟩
  · contradiction
  · obtain rfl := Evaluation.Failure.error.inj herror
    exact ⟨hmem, hkind⟩

end Machine

end MiniLox
