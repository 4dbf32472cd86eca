import MiniLox.Evaluation
import MiniLox.Scopes.Basic

/-!
Running statements. A machine holds the scopes and knows the current one. A
statement first evaluates its expression and then acts on the value, so one
that fails has done nothing; the first failure ends the run, and everything
done before it stays done. An expression of more levels than the machine can
go through has no value.
-/

namespace MiniLox

structure Machine where
  levels : Nat
  scopes : Scopes
  current : Nat
  current_lt : current < scopes.size

namespace Machine

def initial (levels : Nat) : Machine where
  levels := levels
  scopes := .global
  current := 0
  current_lt := by simp

def lookup (m : Machine) (name : String) : Option Value := m.scopes.get? m.current name

def define (m : Machine) (name : String) (value : Value) : Machine where
  levels := m.levels
  scopes := m.scopes.define m.current name value
  current := m.current
  current_lt := by simpa using m.current_lt

def enter (m : Machine) : Machine where
  levels := m.levels
  scopes := m.scopes.child m.current m.current_lt
  current := m.scopes.size
  current_lt := by simp

/-- Goes back to the scope around the current one. The outermost scope is
never left. -/
def leave (m : Machine) : Machine :=
  match h : m.scopes.parent? m.current with
  | some p =>
    { m with
      current := p
      current_lt := Nat.lt_trans (Scopes.parent?_lt h) m.current_lt }
  | none => m

end Machine

/-- What a statement of some form does with its value: the machine after it
and what it prints. -/
def Form.perform (m : Machine) (value : Value) : Form → Machine × List Value
  | expression => (m, [])
  | print => (m, [value])
  | var name => (m.define name.lexeme value, [])

@[simp] theorem Form.levels_perform (m : Machine) (value : Value) (form : Form) :
    (form.perform m value).1.levels = m.levels := by
  cases form <;> rfl

/-- The outcome of a run: the machine at its end, the values printed, and
what ended it before all statements were through. -/
structure Execution where
  machine : Machine
  printed : List Value := []
  failure : Option Evaluation.Failure := none

def Execution.output (e : Execution) : String :=
  String.join (e.printed.map fun v => v.text ++ "\n")

namespace Machine

def evaluate (m : Machine) (e : Expr) : Except Evaluation.Failure Value :=
  e.evaluate m.lookup m.levels

def execute (m : Machine) (s : Stmt) : Except Evaluation.Failure (Machine × List Value) :=
  match m.evaluate s.expr with
  | .ok value => .ok (s.form.perform m value)
  | .error failure => .error failure

/-- Statements in their order, up to the first that fails. -/
def run (m : Machine) : List Stmt → Execution
  | [] => { machine := m }
  | s :: ss =>
    match m.execute s with
    | .ok (next, printed) =>
      let rest := next.run ss
      { rest with printed := printed ++ rest.printed }
    | .error failure => { machine := m, failure := some failure }

end Machine

end MiniLox
