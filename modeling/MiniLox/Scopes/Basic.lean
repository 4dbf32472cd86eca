import MiniLox.Value

/-!
Scopes and what is bound in them. Scopes form a forest: each but the
outermost ones encloses nothing itself and is enclosed by an older scope, and
any number of scopes may share one that encloses them. A scope is named by
its place in the order of creation. That an enclosing scope is older is part
of the type, so the way outwards from any scope is finite.

A name means what the nearest scope on the way outwards binds it to.
-/

namespace MiniLox

/-- The names bound in one scope and their values, in the order in which the
names were first bound. -/
abbrev Bindings := List (String × Value)

namespace Bindings

/-- Binds a name. A name that is bound already keeps its place. -/
def set (name : String) (value : Value) : Bindings → Bindings
  | [] => [(name, value)]
  | (bound, old) :: rest =>
    if bound = name then (bound, value) :: rest else (bound, old) :: set name value rest

def get? (b : Bindings) (name : String) : Option Value := b.lookup name

@[simp] theorem get?_set_self (name : String) (value : Value) (b : Bindings) :
    (b.set name value).get? name = some value := by
  induction b with
  | nil => simp [set, get?]
  | cons entry rest ih =>
    obtain ⟨bound, old⟩ := entry
    by_cases h : bound = name
    · simp [set, get?, h]
    · have hne : (name == bound) = false := by simpa using Ne.symm h
      simpa [set, get?, h, List.lookup_cons, hne] using ih

theorem get?_set_of_ne {name other : String} (value : Value) (b : Bindings)
    (h : other ≠ name) : (b.set name value).get? other = b.get? other := by
  induction b with
  | nil => simp [set, get?, h]
  | cons entry rest ih =>
    obtain ⟨bound, old⟩ := entry
    by_cases hb : bound = name
    · subst hb
      have hne : (other == bound) = false := by simpa using h
      simp [set, get?, List.lookup_cons, hne]
    · simp only [set, hb, if_false, get?, List.lookup_cons]
      split
      · rfl
      · exact ih

end Bindings

structure Scope where
  parent : Option Nat := none
  bindings : Bindings := []

/-- A forest of scopes, in the order of their creation. -/
structure Scopes where
  list : List Scope
  parent_lt : ∀ {i : Nat} {s : Scope} {p : Nat}, list[i]? = some s → s.parent = some p → p < i

namespace Scopes

def global : Scopes where
  list := [{}]
  parent_lt := by
    intro i s p hs hp
    cases i with
    | zero =>
      simp only [List.getElem?_cons_zero, Option.some.injEq] at hs
      simp [← hs] at hp
    | succ i => simp at hs

def size (f : Scopes) : Nat := f.list.length

def parent? (f : Scopes) (i : Nat) : Option Nat := f.list[i]?.bind Scope.parent

theorem parent?_lt {f : Scopes} {i p : Nat} (h : f.parent? i = some p) : p < i := by
  obtain ⟨s, hs, hp⟩ := Option.bind_eq_some_iff.1 h
  exact f.parent_lt hs hp

def bindings (f : Scopes) (i : Nat) : Bindings := (f.list[i]?.map Scope.bindings).getD []

/-- The way outwards from a scope, the scope itself first. -/
def chain (f : Scopes) (i : Nat) : List Nat :=
  match _h : f.parent? i with
  | some p => i :: f.chain p
  | none => [i]
termination_by i
decreasing_by exact parent?_lt _h

def binds (f : Scopes) (name : String) (i : Nat) : Bool := ((f.bindings i).get? name).isSome

/-- The nearest scope that binds a name. -/
def binder? (f : Scopes) (i : Nat) (name : String) : Option Nat :=
  (f.chain i).find? (f.binds name)

def get? (f : Scopes) (i : Nat) (name : String) : Option Value :=
  (f.chain i).findSome? fun j => (f.bindings j).get? name

/-- A new scope, enclosed by the given one. Its name is the former size. -/
def child (f : Scopes) (i : Nat) (h : i < f.size) : Scopes where
  list := f.list ++ [{ parent := some i }]
  parent_lt := by
    intro j s p hs hp
    rw [List.getElem?_append] at hs
    split at hs
    · exact f.parent_lt hs hp
    · next hj =>
      rw [List.getElem?_singleton] at hs
      split at hs
      · simp only [Option.some.injEq] at hs
        simp only [← hs, Option.some.injEq] at hp
        simp only [size] at h
        omega
      · simp at hs

def define (f : Scopes) (i : Nat) (name : String) (value : Value) : Scopes where
  list := f.list.modify i fun s => { s with bindings := s.bindings.set name value }
  parent_lt := by
    intro j s p hs hp
    rw [List.getElem?_modify] at hs
    obtain ⟨t, ht, rfl⟩ := Option.map_eq_some_iff.1 hs
    refine f.parent_lt ht ?_
    split at hp <;> exact hp

/-- Binds a name anew in the nearest scope that binds it, if there is one. -/
def assign? (f : Scopes) (i : Nat) (name : String) (value : Value) : Option Scopes :=
  (f.binder? i name).map fun j => f.define j name value

@[simp] theorem size_global : global.size = 1 := rfl

@[simp] theorem size_child (f : Scopes) (i : Nat) (h : i < f.size) :
    (f.child i h).size = f.size + 1 := by
  simp [child, size]

@[simp] theorem size_define (f : Scopes) (i : Nat) (name : String) (value : Value) :
    (f.define i name value).size = f.size := by
  simp [define, size]

end Scopes

end MiniLox
