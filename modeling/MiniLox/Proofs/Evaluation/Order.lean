import MiniLox.Proofs.Evaluation.Blame
import MiniLox.Proofs.Scopes.Define

/-!
What fails first. The nodes of a tree are through one after the other, operands
before their operator and the left one first, and what a node does by itself can
only go wrong if its operands have values. The failure of a tree is that of the
first of its nodes that goes wrong.

In the same way the failure of a run is that of the first statement that fails.
The statements before it have done all that they do, and nothing else is done:
the failing one has not even begun to act, for a statement acts on a value that
it does not have.
-/

namespace MiniLox

open Evaluation

/-! ### The first node that goes wrong -/

namespace Evaluation

/-- A node of a tree: the part of the tree below it, and the levels that are
left where this part is evaluated. -/
structure Node where
  part : Expr
  levels : Nat

/-- Why there is no result, if there is none. -/
def failure? {α : Type} : Except Failure α → Option Failure
  | .ok _ => none
  | .error failure => some failure

@[simp] theorem failure?_ok {α : Type} (a : α) : failure? (.ok a) = none := rfl

@[simp] theorem failure?_error {α : Type} (failure : Failure) :
    failure? (.error failure : Except Failure α) = some failure := rfl

theorem failure?_eq_some_iff {α : Type} {x : Except Failure α} {failure : Failure} :
    failure? x = some failure ↔ x = .error failure := by
  cases x <;> simp

theorem bind_eq_ok {α β : Type} {x : Except Failure α} {f : α → Except Failure β} {b : β} :
    (x >>= f) = .ok b ↔ ∃ a, x = .ok a ∧ f a = .ok b := by
  cases x <;> simp [bind, Except.bind]

end Evaluation

namespace Expr

variable (lookup : String → Option Value)

/-- The nodes of a tree in the order in which they are through. What is below the
last level is one node that goes wrong, whatever it is. -/
def postorder : Expr → (levels : Nat) → List Node
  | e, 0 => [⟨e, 0⟩]
  | group inner, levels + 1 => inner.postorder levels ++ [⟨group inner, levels + 1⟩]
  | unary operator right, levels + 1 =>
    right.postorder levels ++ [⟨unary operator right, levels + 1⟩]
  | binary left operator right, levels + 1 =>
    left.postorder levels ++
      (right.postorder levels ++ [⟨binary left operator right, levels + 1⟩])
  | e, levels + 1 => [⟨e, levels + 1⟩]

/-- The value of a tree, if it has one, in no order of evaluation: that of an
operator is made of the values of its operands. -/
def value? : Expr → Option Value
  | literal v => some v
  | group inner => inner.value?
  | name token => lookup token.lexeme
  | unary operator right =>
    right.value?.bind fun r => (Evaluation.unary operator r).toOption
  | binary left operator right =>
    left.value?.bind fun l =>
      right.value?.bind fun r => (Evaluation.binary operator l r).toOption
  | misplaced _ _ => none

end Expr

namespace Evaluation

variable (lookup : String → Option Value)

/-- What goes wrong at a node by itself. At an operator that is what it makes of
the values of its operands, and nothing if an operand has none. -/
def Node.fault? : Node → Option Failure
  | ⟨_, 0⟩ => some .tooDeep
  | ⟨.literal _, _ + 1⟩ => none
  | ⟨.group _, _ + 1⟩ => none
  | ⟨.name token, _ + 1⟩ => failure? (meaning lookup token)
  | ⟨.unary operator right, _ + 1⟩ =>
    (right.value? lookup).bind fun r => failure? (unary operator r)
  | ⟨.binary left operator right, _ + 1⟩ =>
    (left.value? lookup).bind fun l =>
      (right.value? lookup).bind fun r => failure? (binary operator l r)
  | ⟨.misplaced form body, _ + 1⟩ => some (.notExpression (.misplaced form body))

end Evaluation

namespace Expr

variable {lookup : String → Option Value} {e : Expr} {levels : Nat} {v : Value}

theorem value?_of_evaluate (h : e.evaluate lookup levels = .ok v) : e.value? lookup = some v := by
  fun_induction evaluate lookup e levels generalizing v with
  | case1 e => contradiction
  | case2 value levels =>
      cases h
      rfl
  | case3 inner levels ih => exact ih h
  | case4 token levels =>
      rw [meaning] at h
      split at h
      · next hvalue =>
          cases h
          exact hvalue
      · contradiction
  | case5 operator right levels ih =>
      obtain ⟨r, hright, hvalue⟩ := bind_eq_ok.mp h
      rw [value?, ih hright, Option.bind_some, hvalue]
      rfl
  | case6 left operator right levels ihleft ihright =>
      obtain ⟨l, hleft, h⟩ := bind_eq_ok.mp h
      obtain ⟨r, hright, hvalue⟩ := bind_eq_ok.mp h
      rw [value?, ihleft hleft, ihright hright, Option.bind_some, Option.bind_some, hvalue]
      rfl
  | case7 form body levels => contradiction

/-- A tree fails as the first of its nodes does that goes wrong by itself. -/
theorem failure?_evaluate (lookup : String → Option Value) (e : Expr) (levels : Nat) :
    failure? (e.evaluate lookup levels) =
      (e.postorder levels).findSome? (Node.fault? lookup) := by
  fun_induction evaluate lookup e levels with
  | case1 e => simp [postorder, Node.fault?]
  | case2 value levels => rfl
  | case3 inner levels ih =>
      rw [postorder, List.findSome?_append, ← ih]
      simp [Node.fault?]
  | case4 token levels => simp [postorder, Node.fault?]
  | case5 operator right levels ih =>
      rw [postorder, List.findSome?_append, ← ih]
      cases hright : right.evaluate lookup levels with
      | error failure => rfl
      | ok r =>
          show failure? (Evaluation.unary operator r) = _
          simp [Node.fault?, value?_of_evaluate hright]
  | case6 left operator right levels ihleft ihright =>
      rw [postorder, List.findSome?_append, List.findSome?_append, ← ihleft, ← ihright]
      cases hleft : left.evaluate lookup levels with
      | error failure => rfl
      | ok l =>
          cases hright : right.evaluate lookup levels with
          | error failure => rfl
          | ok r =>
              show failure? (Evaluation.binary operator l r) = _
              simp [Node.fault?, value?_of_evaluate hleft, value?_of_evaluate hright]
  | case7 form body levels => rfl

end Expr

/-! ### The first statement that fails -/

namespace Machine

/-- Statements whose expressions all have values, what they print and the machine
that they lead to. A print statement prints its value and a declaration binds its
name to its value in the current scope; nothing else is done. -/
inductive Performs : Machine → List Stmt → List Value → Machine → Prop where
  | nil {m : Machine} : Performs m [] [] m
  | expression {m m' : Machine} {e : Expr} {v : Value} {ss : List Stmt} {printed : List Value}
      (hvalue : m.evaluate e = .ok v) (hrest : Performs m ss printed m') :
      Performs m ({ form := .expression, expr := e } :: ss) printed m'
  | print {m m' : Machine} {e : Expr} {v : Value} {ss : List Stmt} {printed : List Value}
      (hvalue : m.evaluate e = .ok v) (hrest : Performs m ss printed m') :
      Performs m ({ form := .print, expr := e } :: ss) (v :: printed) m'
  | var {m m' : Machine} {name : Token} {e : Expr} {v : Value} {ss : List Stmt}
      {printed : List Value} (hvalue : m.evaluate e = .ok v)
      (hrest : Performs (m.define name.lexeme v) ss printed m') :
      Performs m ({ form := .var name, expr := e } :: ss) printed m'

variable {m m' : Machine} {ss : List Stmt} {printed : List Value}

theorem performs_of_run (h : (m.run ss).failure = none) :
    m.Performs ss (m.run ss).printed (m.run ss).machine := by
  induction ss generalizing m with
  | nil => exact .nil
  | cons s ss ih =>
      cases hvalue : m.evaluate s.expr with
      | error failure =>
          rw [run_cons_of_error hvalue] at h
          contradiction
      | ok v =>
          rw [run_cons_of_ok hvalue] at h ⊢
          have hrest := ih h
          obtain ⟨form, e⟩ := s
          cases form with
          | expression => exact .expression hvalue hrest
          | print => exact .print hvalue hrest
          | var name => exact .var hvalue hrest

/-- What lies outside the current scope, and the way there, stays as it is. -/
structure KeepsAround (m m' : Machine) : Prop where
  current : m'.current = m.current
  parent : ∀ i, m'.scopes.parent? i = m.scopes.parent? i
  bindings : ∀ i, i ≠ m.current → m'.scopes.bindings i = m.scopes.bindings i

theorem keepsAround_define (m : Machine) (name : String) (v : Value) :
    m.KeepsAround (m.define name v) where
  current := rfl
  parent i := m.scopes.parent?_define m.current i name v
  bindings i hi := by
    show (m.scopes.define m.current name v).bindings i = m.scopes.bindings i
    rw [m.scopes.bindings_define i name v m.current_lt, if_neg hi.symm]

theorem KeepsAround.trans {m'' : Machine} (h : m.KeepsAround m') (h' : m'.KeepsAround m'') :
    m.KeepsAround m'' where
  current := h'.current.trans h.current
  parent i := (h'.parent i).trans (h.parent i)
  bindings i hi := (h'.bindings i (h.current ▸ hi)).trans (h.bindings i hi)

theorem Performs.keepsAround (h : m.Performs ss printed m') : m.KeepsAround m' := by
  induction h with
  | nil => exact ⟨rfl, fun _ => rfl, fun _ _ => rfl⟩
  | expression hvalue hrest ih => exact ih
  | print hvalue hrest ih => exact ih
  | var hvalue hrest ih => exact (keepsAround_define _ _ _).trans ih

/-- A run gets through some statements and stops in front of the others, of which
the first one fails. It leaves the machine as it is there. -/
theorem exists_run_eq (m : Machine) (ss : List Stmt) :
    ∃ done left, ss = done ++ left ∧ (m.run done).failure = none ∧
      (left = [] ∨ ∃ failing later failure, left = failing :: later ∧
        (m.run done).machine.evaluate failing.expr = .error failure ∧
        m.run ss = { m.run done with failure := some failure }) := by
  induction ss generalizing m with
  | nil => exact ⟨[], [], rfl, rfl, .inl rfl⟩
  | cons s ss ih =>
      cases hvalue : m.evaluate s.expr with
      | error failure =>
          exact ⟨[], s :: ss, rfl, rfl,
            .inr ⟨s, ss, failure, rfl, hvalue, run_cons_of_error hvalue⟩⟩
      | ok v =>
          obtain ⟨done, left, rfl, hdone, hends⟩ := ih (s.form.perform m v).1
          refine ⟨s :: done, left, rfl, ?_, ?_⟩
          · rw [run_cons_of_ok hvalue]
            exact hdone
          · rcases hends with hleft | ⟨failing, later, failure, hleft, hfails, hran⟩
            · exact .inl hleft
            · refine .inr ⟨failing, later, failure, hleft, ?_, ?_⟩
              · rw [run_cons_of_ok hvalue]
                exact hfails
              · rw [run_cons_of_ok hvalue, run_cons_of_ok hvalue, hran]

end Machine

/-- The first failure decides. A tree fails if one of its nodes goes wrong by
itself, and then as the first of these does in the order in which they are
through. A run does what the statements before the first failing one do and
nothing else: it leaves the scopes as they are in front of that statement, and
outside the current one as they were at its start. -/
theorem first_failure_decides :
    (∀ (lookup : String → Option Value) (e : Expr) (levels : Nat),
      ((∃ failure, e.evaluate lookup levels = .error failure) ↔
          ∃ node ∈ e.postorder levels, ∃ failure, node.fault? lookup = some failure) ∧
        ∀ failure, e.evaluate lookup levels = .error failure ↔
          ∃ before node behind, e.postorder levels = before ++ node :: behind ∧
            node.fault? lookup = some failure ∧
              ∀ other ∈ before, other.fault? lookup = none) ∧
      ∀ (m : Machine) (ss : List Stmt),
        ∃ done left printed m', ss = done ++ left ∧ m.Performs done printed m' ∧
          m.KeepsAround m' ∧
            (left = [] ∧ m.run ss = { machine := m', printed := printed } ∨
              ∃ failing later failure, left = failing :: later ∧
                m'.evaluate failing.expr = .error failure ∧
                  m.run ss =
                    { machine := m', printed := printed, failure := some failure }) := by
  refine ⟨fun lookup e levels => ⟨?_, fun failure => ?_⟩, fun m ss => ?_⟩
  · simp only [← failure?_eq_some_iff, Expr.failure?_evaluate]
    rw [← Option.isSome_iff_exists, List.findSome?_isSome_iff]
    simp only [Option.isSome_iff_exists]
  · rw [← failure?_eq_some_iff, Expr.failure?_evaluate, List.findSome?_eq_some_iff]
  · obtain ⟨done, left, hsplit, hdone, hends⟩ := m.exists_run_eq ss
    have hperforms := Machine.performs_of_run hdone
    refine ⟨done, left, _, _, hsplit, hperforms, hperforms.keepsAround, ?_⟩
    rcases hends with rfl | ⟨failing, later, failure, hleft, hfails, hran⟩
    · have hran : m.run done =
          { machine := (m.run done).machine, printed := (m.run done).printed } := by
        rw [← hdone]
      rw [hsplit, List.append_nil]
      exact .inl ⟨rfl, hran⟩
    · exact .inr ⟨failing, later, failure, hleft, hfails, hran⟩

/-- A sign before a string, a name without meaning and an operator that is none,
in one tree: the sign is to blame. -/
def threefold : Expr :=
  .binary (.unary (Grammar.word .minus "-") (.literal (.string "a"))) (Grammar.word .dot ".")
    (.name (Grammar.word .identifier "x"))

/-- `var x = "b"; print x; var x = -x; print x;`. -/
def redeclaration : List Stmt :=
  let x := Grammar.word .identifier "x"
  [{ form := .var x, expr := .literal (.string "b") }, { form := .print, expr := .name x },
    { form := .var x, expr := .unary (Grammar.word .minus "-") (.name x) },
    { form := .print, expr := .name x }]

/-- A machine in a scope inside one that binds `x`. -/
def nested : Machine := ((Machine.initial 4).define "x" .nil).enter

theorem first_failure_decides_threefold :
    threefold.evaluate (fun _ => none) 4 =
        .error (.error { token := Grammar.word .minus "-", fault := .operand .string }) ∧
      (nested.run redeclaration).output = "b\n" ∧
      ∃ printed m' failure,
        nested.run redeclaration =
            { machine := m', printed := printed, failure := some failure } ∧
          m'.scopes.bindings 0 = [("x", .nil)] := by
  have houtput : (nested.run redeclaration).output = "b\n" := by decide +kernel
  have hfails : (nested.run redeclaration).failure.isSome = true := by decide +kernel
  obtain ⟨-, hstops⟩ := first_failure_decides
  refine ⟨?_, houtput, ?_⟩
  · exact ((first_failure_decides.1 (fun _ => none) threefold 4).2 _).mpr
      ⟨[⟨_, _⟩], ⟨_, _⟩, _, rfl, rfl, by simp [Node.fault?]⟩
  · obtain ⟨done, left, printed, m', -, -, hkeeps, hends⟩ := hstops nested redeclaration
    have hbindings : m'.scopes.bindings 0 = [("x", .nil)] := hkeeps.bindings 0 (by decide)
    rcases hends with ⟨-, hran⟩ | ⟨failing, later, failure, -, -, hran⟩
    · rw [hran] at hfails
      contradiction
    · exact ⟨printed, m', failure, hran, hbindings⟩

end MiniLox
