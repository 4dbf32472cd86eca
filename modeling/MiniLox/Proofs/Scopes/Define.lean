import MiniLox.Machine

/-!
Binding a name. The forest keeps its shape, and of what the scopes bind only
the one name in the one scope changes. Seen from that scope itself the name
has the new value and every other name means what it meant before.
-/

namespace MiniLox

namespace Scopes

variable (f : Scopes) (i j : Nat) (name : String) (value : Value)

theorem getElem?_list_define :
    (f.define i name value).list[j]? =
      if i = j then f.list[j]?.map fun s => { s with bindings := s.bindings.set name value }
      else f.list[j]? := by
  rw [define, List.getElem?_modify]
  split <;> simp

@[simp] theorem parent?_define : (f.define i name value).parent? j = f.parent? j := by
  rw [parent?, parent?, getElem?_list_define]
  split
  · cases f.list[j]? <;> rfl
  · rfl

@[simp] theorem chain_define : (f.define i name value).chain j = f.chain j := by
  fun_induction chain f j with
  | case1 j p hp ih =>
      rw [chain]
      split <;> simp_all
  | case2 j hp =>
      rw [chain]
      split <;> simp_all

variable {i} in
theorem bindings_define (hi : i < f.size) :
    (f.define i name value).bindings j =
      if i = j then (f.bindings j).set name value else f.bindings j := by
  rw [bindings, bindings, getElem?_list_define]
  split
  · next hij =>
      subst hij
      have hscope : f.list[i]? = some f.list[i] := List.getElem?_eq_getElem hi
      rw [hscope]
      rfl
  · rfl

theorem exists_chain_eq : ∃ outer, f.chain i = i :: outer := by
  rw [chain]
  split
  · exact ⟨_, rfl⟩
  · exact ⟨_, rfl⟩

variable {i name}

theorem get?_define_of_ne {other : String} (hi : i < f.size) (h : other ≠ name) :
    (f.define i name value).get? j other = f.get? j other := by
  have hbindings (k : Nat) :
      ((f.define i name value).bindings k).get? other = (f.bindings k).get? other := by
    rw [f.bindings_define k name value hi]
    split
    · exact Bindings.get?_set_of_ne value _ h
    · rfl
  simp only [get?, chain_define, hbindings]

theorem get?_define_self (hi : i < f.size) : (f.define i name value).get? i name = some value := by
  obtain ⟨outer, hchain⟩ := f.exists_chain_eq i
  rw [get?, chain_define, hchain, List.findSome?_cons, f.bindings_define i name value hi,
    if_pos rfl, Bindings.get?_set_self]

end Scopes

/-- In the scope where a machine is a name means what it was bound to last. -/
theorem Machine.lookup_define (m : Machine) (name : String) (value : Value) (other : String) :
    (m.define name value).lookup other = if other = name then some value else m.lookup other := by
  split
  · next h =>
      rw [h]
      exact m.scopes.get?_define_self value m.current_lt
  · next h => exact m.scopes.get?_define_of_ne m.current value m.current_lt h

theorem Machine.lookup_initial (levels : Nat) (name : String) :
    (initial levels).lookup name = none := by
  have hbindings (i : Nat) : Scopes.global.bindings i = [] := by
    cases i <;> rfl
  rw [lookup, Scopes.get?, List.findSome?_eq_none_iff]
  intro i _
  show (Scopes.global.bindings i).get? name = none
  rw [hbindings]
  rfl

end MiniLox
