import MiniLox.Proofs.Evaluation.Blame
import MiniLox.Proofs.Grammar.Parentheses

/-!
Groups while a program runs. A group has the value or the failure of what stands in
it, so explicit groups change nothing: neither the value of a tree nor what it fails
with. The only thing that they take is levels, and a tree that fits into the levels
with its groups fits into them without.
-/

namespace MiniLox

open Evaluation

namespace Evaluation

variable {operator : Token} {left right : Value}

theorem unary_ne_tooDeep : unary operator right ≠ .error .tooDeep := by
  unfold unary
  split
  · simp
  · split <;> simp
  · simp

theorem binary_ne_tooDeep : binary operator left right ≠ .error .tooDeep := by
  unfold binary
  split
  case h_11 => simp
  · simp
  · simp
  · intro h
    obtain ⟨fault, hfault⟩ := add_eq_error h
    contradiction
  all_goals
    intro h
    obtain ⟨fault, hfault⟩ := onNumbers_eq_error h
    contradiction

end Evaluation

namespace Expr

variable {lookup : String → Option Value} {e e' : Expr} {levels : Nat}

theorem evaluate_zero (lookup : String → Option Value) (e : Expr) :
    e.evaluate lookup 0 = .error .tooDeep := by
  rw [evaluate]

/-- Only a tree that is higher than the levels can be too deep. -/
theorem evaluate_ne_tooDeep (h : e.height ≤ levels) :
    e.evaluate lookup levels ≠ .error .tooDeep := by
  fun_induction evaluate lookup e levels with
  | case1 e => cases e <;> simp [height] at h
  | case2 value levels => simp
  | case3 inner levels ih => exact ih (Nat.le_of_succ_le_succ h)
  | case4 token levels =>
      rw [meaning]
      split <;> simp
  | case5 operator right levels ih =>
      have hright := ih (Nat.le_of_succ_le_succ h)
      intro hdeep
      rcases bind_eq_error.mp hdeep with hdeep | ⟨r, -, hdeep⟩
      · exact hright hdeep
      · exact unary_ne_tooDeep hdeep
  | case6 left operator right levels ihleft ihright =>
      obtain ⟨hleft, hright⟩ := Nat.max_le.mp (Nat.le_of_succ_le_succ h)
      intro hdeep
      rcases bind_eq_error.mp hdeep with hdeep | ⟨l, -, hdeep⟩
      · exact ihleft hleft hdeep
      rcases bind_eq_error.mp hdeep with hdeep | ⟨r, -, hdeep⟩
      · exact ihright hright hdeep
      · exact binary_ne_tooDeep hdeep
  | case7 form body levels => simp

/-! ### Trees with and without groups -/

/-- The first tree comes to what the second one comes to, unless that is too deep,
also where more levels are left. -/
structure Follows (lookup : String → Option Value) (e e' : Expr) : Prop where
  evaluate_eq : ∀ {levels levels' : Nat}, levels ≤ levels' →
    e'.evaluate lookup levels ≠ .error .tooDeep →
      e.evaluate lookup levels' = e'.evaluate lookup levels

variable {inner inner' left left' right right' : Expr}

/-- Nothing is evaluated without a level, so only trees with a level matter. -/
theorem Follows.of_succ
    (h : ∀ {levels levels' : Nat}, levels ≤ levels' →
      e'.evaluate lookup (levels + 1) ≠ .error .tooDeep →
        e.evaluate lookup (levels' + 1) = e'.evaluate lookup (levels + 1)) :
    Follows lookup e e' where
  evaluate_eq {levels levels'} hle hdeep := by
    cases levels with
    | zero => exact absurd (evaluate_zero lookup e') hdeep
    | succ levels =>
        cases levels' with
        | zero => contradiction
        | succ levels' => exact h (Nat.le_of_succ_le_succ hle) hdeep

theorem Follows.enclosed (h : Follows lookup e e') : Follows lookup e e'.enclosed := by
  rw [Expr.enclosed]
  split
  · -- Parentheses take a level from what stands in them.
    refine ⟨fun {levels levels'} hle hdeep => ?_⟩
    cases levels with
    | zero => exact absurd rfl hdeep
    | succ levels => exact h.evaluate_eq (Nat.le_of_succ_le hle) hdeep
  · exact h

theorem Follows.group (h : Follows lookup inner inner') :
    Follows lookup (.group inner) (.group inner') :=
  .of_succ fun hle hdeep => h.evaluate_eq hle hdeep

theorem Follows.unary (h : Follows lookup right right') (operator : Token) :
    Follows lookup (.unary operator right) (.unary operator right') := by
  refine .of_succ fun {levels levels'} hle hdeep => ?_
  have hright : right'.evaluate lookup levels ≠ .error .tooDeep :=
    fun hright => hdeep (bind_eq_error.mpr (.inl hright))
  show (right.evaluate lookup levels' >>= _) = (right'.evaluate lookup levels >>= _)
  rw [h.evaluate_eq hle hright]

theorem Follows.binary (h : Follows lookup left left') (operator : Token)
    (h' : Follows lookup right right') :
    Follows lookup (.binary left operator right) (.binary left' operator right') := by
  refine .of_succ fun {levels levels'} hle hdeep => ?_
  have hleft : left'.evaluate lookup levels ≠ .error .tooDeep :=
    fun hleft => hdeep (bind_eq_error.mpr (.inl hleft))
  show (left.evaluate lookup levels' >>= _) = (left'.evaluate lookup levels >>= _)
  rw [h.evaluate_eq hle hleft]
  cases hvalue : left'.evaluate lookup levels with
  | error failure => rfl
  | ok l =>
      -- The right operand is only evaluated behind a left one with a value.
      have hright : right'.evaluate lookup levels ≠ .error .tooDeep :=
        fun hright => hdeep (bind_eq_error.mpr (.inr ⟨l, hvalue, bind_eq_error.mpr (.inl hright)⟩))
      show (right.evaluate lookup levels' >>= _) = (right'.evaluate lookup levels >>= _)
      rw [h'.evaluate_eq hle hright]

/-- A tree comes to what it comes to with explicit groups. -/
theorem follows_explicit (lookup : String → Option Value) (e : Expr) :
    Follows lookup e e.explicit := by
  induction e with
  | literal value => exact .of_succ fun _ _ => rfl
  | group inner ih => exact ih.group
  | name token => exact .of_succ fun _ _ => rfl
  | unary operator right ih => exact ih.enclosed.unary operator
  | binary left operator right ihleft ihright =>
      exact ihleft.enclosed.binary operator ihright.enclosed
  | misplaced form body => exact .of_succ fun _ _ => rfl

end Expr

/-! ### Runs -/

namespace Machine

variable {m : Machine} {S : List Stmt}

/-- Statements that are low enough do not end a run for being too deep. -/
theorem run_failure_ne_tooDeep (h : ∀ s ∈ S, s.expr.height ≤ m.levels) :
    (m.run S).failure ≠ some .tooDeep := by
  intro hdeep
  obtain ⟨s, hs, at', hlevels, hfails⟩ := exists_of_run_failure hdeep
  exact Expr.evaluate_ne_tooDeep (hlevels ▸ h s hs) hfails

theorem evaluate_explicit (m : Machine) {e : Expr}
    (h : m.evaluate e.explicit ≠ .error .tooDeep) : m.evaluate e.explicit = m.evaluate e :=
  ((Expr.follows_explicit m.lookup e).evaluate_eq (Nat.le_refl m.levels) h).symm

/-- A run does not notice explicit groups, unless they make a tree too high. -/
theorem run_explicit (m : Machine)
    (h : (m.run (S.map Stmt.explicit)).failure ≠ some .tooDeep) :
    m.run (S.map Stmt.explicit) = m.run S := by
  induction S generalizing m with
  | nil => rfl
  | cons s S ih =>
      rw [List.map_cons] at h ⊢
      have hvalue : m.evaluate s.explicit.expr = m.evaluate s.expr :=
        m.evaluate_explicit fun hdeep => h (by rw [run_cons_of_error hdeep])
      cases hs : m.evaluate s.expr with
      | error failure =>
          rw [hs] at hvalue
          rw [run_cons_of_error hs, run_cons_of_error hvalue]
      | ok value =>
          rw [hs] at hvalue
          rw [run_cons_of_ok hvalue] at h
          have hlater : (s.form.perform m value).1.run (S.map Stmt.explicit) =
              (s.form.perform m value).1.run S :=
            ih _ h
          rw [run_cons_of_ok hs, run_cons_of_ok hvalue, ← hlater]
          rfl

end Machine

end MiniLox
