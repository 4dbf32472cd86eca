import MiniLox.Proofs.Scopes.Define
import MiniLox.Scopes.Operation
import Mathlib.Logic.Relation

/-!
What a forest of scopes remembers. However a forest has come about, the way
outwards from each of its scopes ends in the global one, and a name means what
the nearest scope on that way binds it to. A write goes to one scope, and it is
seen from exactly the scopes that look out on that scope with nothing in
between that binds the name; from everywhere else nothing has changed.
-/

namespace MiniLox

namespace Bindings

variable {b : Bindings} {name : String}

/-- Binding a name anew adds no name. -/
theorem isSome_get?_set (value : Value) (h : (b.get? name).isSome = true) (other : String) :
    ((b.set name value).get? other).isSome = (b.get? other).isSome := by
  by_cases hother : other = name
  · rw [hother, get?_set_self, h]
    rfl
  · rw [get?_set_of_ne value b hother]

end Bindings

namespace Scopes

variable {f g : Scopes} {s t r i : Nat} {name other : String} {value : Value}

/-! ### The way outwards -/

/-- The scopes that are met on the way outwards from a scope, one enclosing
the other. -/
inductive Way (f : Scopes) : Nat → List Nat → Prop where
  | last {i : Nat} (h : f.parent? i = none) : Way f i [i]
  | outwards {i p : Nat} {way : List Nat} (h : f.parent? i = some p) (hway : Way f p way) :
      Way f i (i :: way)

theorem chain_of_parent?_eq_none (h : f.parent? i = none) : f.chain i = [i] := by
  rw [chain]
  split
  · next p hp =>
      rw [h] at hp
      contradiction
  · rfl

theorem chain_of_parent?_eq_some {p : Nat} (h : f.parent? i = some p) :
    f.chain i = i :: f.chain p := by
  rw [chain]
  split
  · next q hq =>
      rw [h] at hq
      cases hq
      rfl
  · next hnone =>
      rw [h] at hnone
      contradiction

theorem way_chain (f : Scopes) (i : Nat) : f.Way i (f.chain i) := by
  fun_induction chain f i with
  | case1 i p hp ih => exact .outwards hp ih
  | case2 i hp => exact .last hp

/-- There is one way outwards, however one goes. -/
theorem Way.eq_chain {way : List Nat} (h : f.Way i way) : way = f.chain i := by
  induction h with
  | last hp => exact (chain_of_parent?_eq_none hp).symm
  | outwards hp hway ih => rw [ih, chain_of_parent?_eq_some hp]

/-- All scopes but the first are enclosed by another one. -/
structure Rooted (f : Scopes) : Prop where
  pos : 0 < f.size
  parent : ∀ i < f.size, f.parent? i = none → i = 0

theorem Rooted.getLast?_chain (h : f.Rooted) (hi : i < f.size) :
    (f.chain i).getLast? = some 0 := by
  fun_induction chain f i with
  | case1 i p hp ih =>
      have hlast := ih (Nat.lt_trans (parent?_lt hp) hi)
      rw [List.getLast?_cons, hlast]
      rfl
  | case2 i hp =>
      rw [h.parent i hi hp]
      rfl

/-! ### What is seen from a scope -/

/-- One scope lies on the way outwards from another one, and no scope before it
on that way binds the name. -/
def Sees (f : Scopes) (t s : Nat) (name : String) : Prop :=
  ∃ nearer outer, f.chain t = nearer ++ s :: outer ∧ ∀ i ∈ nearer, f.binds name i = false

/-- The nearest scope that binds a name, seen from some scope. -/
structure Nearest (f : Scopes) (t r : Nat) (name : String) : Prop where
  sees : f.Sees t r name
  binds : f.binds name r = true

theorem binds_eq_false_iff : f.binds name i = false ↔ (f.bindings i).get? name = none := by
  simp [binds]

theorem lt_size_of_binds (h : f.binds name i = true) : i < f.size := by
  refine Nat.lt_of_not_le fun hi => ?_
  have hnone : f.list[i]? = none := List.getElem?_eq_none hi
  rw [binds, bindings, hnone] at h
  contradiction

theorem get?_eq_some_iff :
    f.get? t name = some value ↔
      ∃ r, f.Nearest t r name ∧ (f.bindings r).get? name = some value := by
  rw [get?, List.findSome?_eq_some_iff]
  constructor
  · rintro ⟨nearer, r, outer, hchain, hvalue, hnearer⟩
    refine ⟨r, ⟨⟨nearer, outer, hchain, fun i hi => ?_⟩, ?_⟩, hvalue⟩
    · exact binds_eq_false_iff.mpr (hnearer i hi)
    · rw [binds, hvalue]
      rfl
  · rintro ⟨r, ⟨⟨nearer, outer, hchain, hnearer⟩, -⟩, hvalue⟩
    exact ⟨nearer, r, outer, hchain, hvalue, fun i hi => binds_eq_false_iff.mp (hnearer i hi)⟩

theorem get?_eq_none_iff :
    f.get? t name = none ↔ ∀ i ∈ f.chain t, f.binds name i = false := by
  simp only [get?, List.findSome?_eq_none_iff, binds_eq_false_iff]

theorem binder?_eq_some_iff : f.binder? t name = some r ↔ f.Nearest t r name := by
  rw [binder?, List.find?_eq_some_iff_append]
  constructor
  · rintro ⟨hbinds, nearer, outer, hchain, hnearer⟩
    exact ⟨⟨nearer, outer, hchain, fun i hi => by simpa using hnearer i hi⟩, hbinds⟩
  · rintro ⟨⟨nearer, outer, hchain, hnearer⟩, hbinds⟩
    exact ⟨hbinds, nearer, outer, hchain, fun i hi => by simpa using hnearer i hi⟩

theorem binder?_eq_none_iff :
    f.binder? t name = none ↔ ∀ i ∈ f.chain t, f.binds name i = false := by
  simp only [binder?, List.find?_eq_none, Bool.not_eq_true]

/-! ### What is answered within some levels -/

/-- With enough levels a scope says whether any scope on the way outwards binds
the name. With fewer it gets to the first of them only, and has no answer if
there are more and none of these binds the name. -/
theorem contains_eq (f : Scopes) (name : String) (levels t : Nat) :
    f.contains name levels t =
      if ∃ i ∈ (f.chain t).take levels, f.binds name i = true then .ok true
      else if levels < (f.chain t).length then .error .tooDeep
      else .ok false := by
  fun_induction contains f name levels t with
  | case1 i =>
      obtain ⟨outer, hchain⟩ := f.exists_chain_eq i
      simp [hchain]
  | case2 levels i hbinds =>
      obtain ⟨outer, hchain⟩ := f.exists_chain_eq i
      simp [hchain, hbinds]
  | case3 levels i hbinds p hp ih =>
      rw [chain_of_parent?_eq_some hp, ih]
      simp [hbinds]
  | case4 levels i hbinds hp =>
      rw [chain_of_parent?_eq_none hp]
      simp [hbinds]

theorem contains_eq_ok_true_iff {levels : Nat} :
    f.contains name levels t = .ok true ↔
      ∃ i ∈ (f.chain t).take levels, f.binds name i = true := by
  rw [contains_eq]
  split
  · next hbinds => exact iff_of_true rfl hbinds
  · next hnone =>
      refine iff_of_false ?_ hnone
      split <;> simp

theorem contains_eq_ok_false_iff {levels : Nat} :
    f.contains name levels t = .ok false ↔
      (∀ i ∈ f.chain t, f.binds name i = false) ∧ (f.chain t).length ≤ levels := by
  rw [contains_eq]
  split
  · next hbinds =>
      obtain ⟨i, hi, hbinds⟩ := hbinds
      refine iff_of_false (by simp) fun h => ?_
      exact Bool.false_ne_true ((h.1 i (List.mem_of_mem_take hi)).symm.trans hbinds)
  · next hnone =>
      split
      · next hlt => exact iff_of_false (by simp) fun h => Nat.not_lt_of_le h.2 hlt
      · next hle =>
          have hle := Nat.le_of_not_lt hle
          rw [List.take_of_length_le hle] at hnone
          exact iff_of_true rfl ⟨by simpa using hnone, hle⟩

theorem contains_eq_error_iff {levels : Nat} {failure : Evaluation.Failure} :
    f.contains name levels t = .error failure ↔
      failure = .tooDeep ∧ levels < (f.chain t).length ∧
        ∀ i ∈ (f.chain t).take levels, f.binds name i = false := by
  rw [contains_eq]
  split
  · next hbinds =>
      obtain ⟨i, hi, hbinds⟩ := hbinds
      refine iff_of_false (by simp) fun h => ?_
      exact Bool.false_ne_true ((h.2.2 i hi).symm.trans hbinds)
  · next hnone =>
      split
      · next hlt =>
          have hnone : ∀ i ∈ (f.chain t).take levels, f.binds name i = false := by
            simpa using hnone
          simp only [Except.error.injEq, hlt, true_and]
          exact ⟨fun h => ⟨h.symm, hnone⟩, fun h => h.1.symm⟩
      · next hle => exact iff_of_false (by simp) fun h => hle h.2.1

/-! ### Writing -/

section Search

variable {α β : Type} [DecidableEq α] {answer : α → Option β} {a : α} {b : β}

/-- A search that is given an answer at one place finds it there, unless there
is another answer before. -/
theorem findSome?_answer_at {before after : List α} (hbefore : ∀ x ∈ before, answer x = none) :
    (before ++ a :: after).findSome? (fun x => if a = x then some b else answer x) = some b := by
  induction before with
  | nil => simp
  | cons x before ih =>
      have hrest := ih fun y hy => hbefore y (List.mem_cons_of_mem x hy)
      rw [List.cons_append, List.findSome?_cons, hbefore x (List.mem_cons_self ..)]
      by_cases hx : a = x
      · rw [if_pos hx]
      · rw [if_neg hx]
        exact hrest

/-- A search does not notice an answer that comes behind another one, or at a
place where it does not look. -/
theorem findSome?_answer_elsewhere {l : List α}
    (h : ¬∃ before after, l = before ++ a :: after ∧ ∀ x ∈ before, answer x = none) :
    l.findSome? (fun x => if a = x then some b else answer x) = l.findSome? answer := by
  induction l with
  | nil => rfl
  | cons x l ih =>
      have hx : a ≠ x := by
        rintro rfl
        exact h ⟨[], l, rfl, by simp⟩
      rw [List.findSome?_cons, List.findSome?_cons, if_neg hx]
      cases hanswer : answer x with
      | some c => rfl
      | none =>
          refine ih fun ⟨before, after, hl, hbefore⟩ => h ⟨x :: before, after, by rw [hl]; rfl, ?_⟩
          simpa [hanswer] using hbefore

end Search

/-- In the scope that is written to the name has the new value, everywhere else
it has what it had. -/
theorem get?_bindings_define (value : Value) (hs : s < f.size) (i : Nat) :
    ((f.define s name value).bindings i).get? name =
      if s = i then some value else (f.bindings i).get? name := by
  rw [f.bindings_define i name value hs]
  split
  · exact Bindings.get?_set_self name value _
  · rfl

theorem get?_define_of_sees (value : Value) (hs : s < f.size) (h : f.Sees t s name) :
    (f.define s name value).get? t name = some value := by
  obtain ⟨nearer, outer, hchain, hnearer⟩ := h
  simp only [get?, chain_define, get?_bindings_define value hs, hchain]
  exact findSome?_answer_at fun i hi => binds_eq_false_iff.mp (hnearer i hi)

theorem get?_define_of_not_sees (value : Value) (hs : s < f.size) (h : ¬f.Sees t s name) :
    (f.define s name value).get? t name = f.get? t name := by
  simp only [get?, chain_define, get?_bindings_define value hs]
  refine findSome?_answer_elsewhere ?_
  rintro ⟨nearer, outer, hchain, hnearer⟩
  exact h ⟨nearer, outer, hchain, fun i hi => binds_eq_false_iff.mpr (hnearer i hi)⟩

theorem get?_define_elsewhere (value : Value) (hs : s < f.size)
    (h : ¬(other = name ∧ f.Sees t s name)) :
    (f.define s name value).get? t other = f.get? t other := by
  by_cases hname : other = name
  · subst hname
    exact get?_define_of_not_sees value hs fun hsees => h ⟨rfl, hsees⟩
  · exact f.get?_define_of_ne t value hs hname

/-- Binding a name anew where it is bound changes no set of names. -/
theorem binds_define (value : Value) (h : f.binds name r = true) (other : String) (i : Nat) :
    (f.define r name value).binds other i = f.binds other i := by
  rw [binds, binds, f.bindings_define i name value (lt_size_of_binds h)]
  split
  · next hi =>
      subst hi
      exact Bindings.isSome_get?_set value h other
  · rfl

/-! ### A new scope -/

theorem parent?_child (hs : s < f.size) (i : Nat) :
    (f.child s hs).parent? i = if i = f.size then some s else f.parent? i := by
  rw [parent?, parent?, child, List.getElem?_append]
  by_cases hlt : i < f.list.length
  · have hne : i ≠ f.size := Nat.ne_of_lt hlt
    rw [if_pos hlt, if_neg hne]
  · rw [if_neg hlt, List.getElem?_singleton]
    have hiff : i - f.list.length = 0 ↔ i = f.size := by
      show _ ↔ i = f.list.length
      omega
    by_cases hi : i = f.size
    · rw [if_pos (hiff.mpr hi), if_pos hi]
      rfl
    · have hnone : f.list[i]? = none := List.getElem?_eq_none (Nat.le_of_not_lt hlt)
      rw [if_neg (mt hiff.mp hi), if_neg hi, hnone]

theorem bindings_child (hs : s < f.size) (i : Nat) :
    (f.child s hs).bindings i = f.bindings i := by
  rw [bindings, bindings, child, List.getElem?_append]
  split
  · rfl
  · next hlt =>
      rw [List.getElem?_singleton, List.getElem?_eq_none (Nat.le_of_not_lt hlt)]
      split <;> rfl

theorem chain_child_of_lt (hs : s < f.size) (ht : t < f.size) :
    (f.child s hs).chain t = f.chain t := by
  fun_induction chain f t with
  | case1 t p hp ih =>
      have hparent : (f.child s hs).parent? t = some p := by
        rw [parent?_child, if_neg (Nat.ne_of_lt ht), hp]
      rw [chain_of_parent?_eq_some hparent, ih (Nat.lt_trans (parent?_lt hp) ht)]
  | case2 t hp =>
      have hparent : (f.child s hs).parent? t = none := by
        rw [parent?_child, if_neg (Nat.ne_of_lt ht), hp]
      exact chain_of_parent?_eq_none hparent

theorem chain_child_size (hs : s < f.size) :
    (f.child s hs).chain f.size = f.size :: f.chain s := by
  have hparent : (f.child s hs).parent? f.size = some s := by rw [parent?_child, if_pos rfl]
  rw [chain_of_parent?_eq_some hparent, chain_child_of_lt hs hs]

theorem get?_child_of_lt (hs : s < f.size) (ht : t < f.size) (name : String) :
    (f.child s hs).get? t name = f.get? t name := by
  simp only [get?, chain_child_of_lt hs ht, bindings_child]

/-- Nothing is bound in a new scope, so everything means what it means around
it. -/
theorem get?_child_size (hs : s < f.size) (name : String) :
    (f.child s hs).get? f.size name = f.get? s name := by
  have hnone : f.bindings f.size = [] := by
    rw [bindings, size, List.getElem?_eq_none (Nat.le_refl _)]
    rfl
  simp only [get?, chain_child_size, bindings_child, List.findSome?_cons, hnone]
  rfl

end Scopes

end MiniLox
