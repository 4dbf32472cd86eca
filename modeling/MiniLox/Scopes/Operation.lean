import MiniLox.Evaluation
import MiniLox.Scopes.Basic

/-!
What can be done with scopes one operation after another. A scope is made
inside another one; a name is bound in a scope itself, or anew in the nearest
scope that binds it; and a scope can be asked what a name means in it, or
whether it means anything. Where a token names what no scope on the way
outwards binds, the token is to blame, and nothing has changed.

The meaning of a name is looked for from scope to scope, however long the way
outwards is. Whether a name means anything a scope asks the scope around it,
and in the same way it is put into its debugging form. Both take one level for
each scope that is asked, and fail where there is none left.
-/

namespace MiniLox

def Bindings.debug (b : Bindings) : String :=
  "\x7b" ++ ", ".intercalate (b.map fun entry => Text.quoted entry.1 ++ ": " ++ entry.2.debug)
    ++ "\x7d"

namespace Scopes

def contains (f : Scopes) (name : String) :
    (levels : Nat) → (i : Nat) → Except Evaluation.Failure Bool
  | 0, _ => .error .tooDeep
  | levels + 1, i =>
    if f.binds name i then .ok true
    else
      match f.parent? i with
      | some p => f.contains name levels p
      | none => .ok false

/-- A scope with its bindings in the order in which their names were first
bound, and with the scope that encloses it. -/
def debug (f : Scopes) : (levels : Nat) → (i : Nat) → Except Evaluation.Failure String
  | 0, _ => .error .tooDeep
  | levels + 1, i => do
    let enclosing ←
      match f.parent? i with
      | some p => f.debug levels p
      | none => pure Value.nil.debug
    return debugParts "Environment" [("values", (f.bindings i).debug), ("enclosing", enclosing)]

def get (f : Scopes) (i : Nat) (name : Token) : Except Evaluation.Failure Value :=
  Evaluation.meaning (f.get? i) name

inductive Operation (size : Nat) where
  | child (scope : Fin size)
  | define (scope : Fin size) (name : String) (value : Value)
  | get (scope : Fin size) (name : Token)
  | assign (scope : Fin size) (name : Token) (value : Value)
  | contains (scope : Fin size) (name : String)

/-- What an operation answers: nothing, the name of a new scope, a value, or
whether a name means anything. -/
inductive Answer where
  | done
  | scope (i : Nat)
  | value (value : Value)
  | truth (b : Bool)

/-- Carries out an operation. Whatever it answers, there is a forest
afterwards. -/
def perform (f : Scopes) (levels : Nat) :
    Operation f.size → Except Evaluation.Failure Answer × Scopes
  | .child s => (.ok (.scope f.size), f.child s s.isLt)
  | .define s name value => (.ok .done, f.define s name value)
  | .get s name => ((f.get s name).map .value, f)
  | .assign s name value =>
    match f.assign? s name.lexeme value with
    | some g => (.ok .done, g)
    | none => (.error (.error { token := name, fault := .undefined }), f)
  | .contains s name => ((f.contains name levels s).map .truth, f)

end Scopes

end MiniLox
