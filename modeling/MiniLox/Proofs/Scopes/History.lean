import MiniLox.Proofs.Scopes.Store

/-!
Operations one after another, from a single global scope on. Whatever was done
before, a name is looked up in the nearest scope that binds it, an operation is
seen where it should be and nowhere else, and one that fails changes nothing.
-/

namespace MiniLox

namespace Scopes

variable {f g : Scopes} {levels s t r : Nat} {name : Token} {value : Value}

/-! ### What is reached -/

/-- An operation makes the second forest of the first one. -/
def Next (f g : Scopes) : Prop :=
  ∃ (levels : Nat) (operation : Operation f.size), (f.perform levels operation).2 = g

/-- The forest is what any number of operations have made of a single global
scope. -/
def Reachable (f : Scopes) : Prop := Relation.ReflTransGen Next global f

theorem rooted_global : global.Rooted where
  pos := Nat.one_pos
  parent i hi _ := by
    rw [size_global] at hi
    omega

theorem Rooted.child (h : f.Rooted) (hs : s < f.size) : (f.child s hs).Rooted where
  pos := by
    rw [size_child]
    omega
  parent i hi hparent := by
    rw [parent?_child] at hparent
    split at hparent
    · contradiction
    · next hne =>
        rw [size_child] at hi
        exact h.parent i (by omega) hparent

theorem Rooted.define (h : f.Rooted) (s : Nat) (name : String) (value : Value) :
    (f.define s name value).Rooted where
  pos := by
    rw [size_define]
    exact h.pos
  parent i hi hparent := by
    rw [size_define] at hi
    rw [parent?_define] at hparent
    exact h.parent i hi hparent

theorem Rooted.perform (h : f.Rooted) (levels : Nat) (operation : Operation f.size) :
    (f.perform levels operation).2.Rooted := by
  cases operation with
  | child s => exact h.child s.isLt
  | define s name value => exact h.define s name value
  | get s name => exact h
  | assign s name value =>
      rw [Scopes.perform, assign?]
      cases f.binder? s name.lexeme with
      | none => exact h
      | some r => exact h.define r name.lexeme value
  | contains s name => exact h

theorem Reachable.rooted (h : f.Reachable) : f.Rooted := by
  induction h with
  | refl => exact rooted_global
  | tail _ hnext ih =>
      obtain ⟨levels, operation, rfl⟩ := hnext
      exact ih.perform levels operation

/-! ### Looking up -/

/-- What is answered about a name token that no scope binds. -/
def unbound {α : Type} (name : Token) : Except Evaluation.Failure α :=
  .error (.error { token := name, fault := .undefined })

theorem get_congr (h : g.get? t name.lexeme = f.get? s name.lexeme) :
    g.get t name = f.get s name := by
  rw [get, get, Evaluation.meaning, Evaluation.meaning, h]

theorem get_of_get?_eq_some (h : f.get? t name.lexeme = some value) :
    f.get t name = .ok value := by
  rw [get, Evaluation.meaning, h]

theorem get_of_get?_eq_none (h : f.get? t name.lexeme = none) : f.get t name = unbound name := by
  rw [get, Evaluation.meaning, h]
  rfl

theorem get_eq_ok_iff :
    f.get t name = .ok value ↔
      ∃ r, f.Nearest t r name.lexeme ∧ (f.bindings r).get? name.lexeme = some value := by
  rw [← get?_eq_some_iff]
  cases h : f.get? t name.lexeme with
  | none =>
      rw [get_of_get?_eq_none h]
      simp [unbound]
  | some v =>
      rw [get_of_get?_eq_some h]
      simp

theorem get_eq_unbound_iff :
    f.get t name = unbound name ↔ ∀ i ∈ f.chain t, f.binds name.lexeme i = false := by
  rw [← get?_eq_none_iff]
  cases h : f.get? t name.lexeme with
  | none => simp [get_of_get?_eq_none h]
  | some v =>
      rw [get_of_get?_eq_some h]
      simp [unbound]

/-! ### Writing -/

/-- In the second forest a name means a new value from where some scope is
seen, and what it meant in the first forest from everywhere else. -/
def Written (f g : Scopes) (s : Nat) (name : String) (value : Value) : Prop :=
  ∀ (t : Nat) (other : Token),
    (other.lexeme = name ∧ f.Sees t s name → g.get t other = .ok value) ∧
      (¬(other.lexeme = name ∧ f.Sees t s name) → g.get t other = f.get t other)

theorem written_define (hs : s < f.size) (name : String) (value : Value) :
    f.Written (f.define s name value) s name value := by
  intro t other
  constructor
  · rintro ⟨rfl, hsees⟩
    exact get_of_get?_eq_some (get?_define_of_sees value hs hsees)
  · intro h
    exact get_congr (get?_define_elsewhere value hs h)

theorem perform_assign_of_nearest {s : Fin f.size} (h : f.Nearest s r name.lexeme) :
    f.perform levels (.assign s name value) = (.ok .done, f.define r name.lexeme value) := by
  rw [perform, assign?, binder?_eq_some_iff.mpr h]
  rfl

theorem perform_assign_of_unbound {s : Fin f.size}
    (h : ∀ i ∈ f.chain s, f.binds name.lexeme i = false) :
    f.perform levels (.assign s name value) = (unbound name, f) := by
  rw [perform, assign?, binder?_eq_none_iff.mpr h]
  rfl

/-- An operation that fails changes nothing. -/
theorem perform_eq_of_error {operation : Operation f.size} {failure : Evaluation.Failure}
    (h : (f.perform levels operation).1 = .error failure) :
    (f.perform levels operation).2 = f := by
  cases operation with
  | child | define => contradiction
  | get | contains => rfl
  | assign s name value =>
      rw [perform] at h ⊢
      cases hassign : f.assign? s name.lexeme value with
      | none => rfl
      | some g =>
          rw [hassign] at h
          contradiction

/-- The scopes of a program are a store, whatever was done with them. From
each of them the way outwards ends, and it ends in the global scope. A name
means what the nearest scope on that way binds it to, and it is unbound if
there is none. A scope says whether a name means anything if it gets to a scope
that binds it, or to the end of the way, within the levels there are: so it
agrees with what the name means except where the name is unbound and the way is
longer than that. A new scope shows what is around it. Defining a name is seen
from the scopes that look out on the one it is defined in; binding it anew is
seen from those for which the same scope is the nearest that binds it, and
changes no set of names. Where nothing binds the name, nothing changes. -/
theorem scope_chain_is_store (h : f.Reachable) (levels : Nat) :
    (∀ t < f.size, f.Way t (f.chain t) ∧ (∀ way, f.Way t way → way = f.chain t) ∧
      (f.chain t).getLast? = some 0) ∧
    (∀ (t : Nat) (name : Token),
      (∀ value, f.get t name = .ok value ↔
        ∃ r, f.Nearest t r name.lexeme ∧ (f.bindings r).get? name.lexeme = some value) ∧
      (f.get t name = unbound name ↔ ∀ i ∈ f.chain t, f.binds name.lexeme i = false) ∧
      (f.contains name.lexeme levels t = .ok true ↔
        ∃ i ∈ (f.chain t).take levels, f.binds name.lexeme i = true) ∧
      (f.contains name.lexeme levels t = .ok false ↔
        (∀ i ∈ f.chain t, f.binds name.lexeme i = false) ∧ (f.chain t).length ≤ levels) ∧
      (∀ failure, f.contains name.lexeme levels t = .error failure ↔
        failure = .tooDeep ∧ levels < (f.chain t).length ∧
          ∀ i ∈ (f.chain t).take levels, f.binds name.lexeme i = false) ∧
      ((f.get t name = unbound name ↔ f.contains name.lexeme levels t = .ok false) ↔
        ¬(levels < (f.chain t).length ∧ ∀ i ∈ f.chain t, f.binds name.lexeme i = false))) ∧
    (∀ s : Fin f.size, ∃ g, f.perform levels (.child s) = (.ok (.scope f.size), g) ∧
      (∀ name, g.get f.size name = f.get s name) ∧
      ∀ t < f.size, ∀ name, g.get t name = f.get t name) ∧
    (∀ (s : Fin f.size) (name : String) (value : Value),
      ∃ g, f.perform levels (.define s name value) = (.ok .done, g) ∧ f.Written g s name value) ∧
    ∀ (s : Fin f.size) (name : Token) (value : Value),
      (∀ r, f.Nearest s r name.lexeme →
        ∃ g, f.perform levels (.assign s name value) = (.ok .done, g) ∧
        (∀ (t : Nat) (other : Token),
          (other.lexeme = name.lexeme ∧ f.Nearest t r name.lexeme → g.get t other = .ok value) ∧
          (¬(other.lexeme = name.lexeme ∧ f.Nearest t r name.lexeme) →
            g.get t other = f.get t other)) ∧
        ∀ (i : Nat) (other : String), g.binds other i = f.binds other i) ∧
      ((∀ i ∈ f.chain s, f.binds name.lexeme i = false) →
        f.perform levels (.assign s name value) = (unbound name, f)) := by
  refine ⟨fun t ht => ?_, fun t name => ?_, fun s => ?_, fun s name value => ?_,
    fun s name value => ⟨fun r hr => ?_, perform_assign_of_unbound⟩⟩
  · exact ⟨f.way_chain t, fun way hway => hway.eq_chain, h.rooted.getLast?_chain ht⟩
  · refine ⟨fun value => get_eq_ok_iff, get_eq_unbound_iff, contains_eq_ok_true_iff,
      contains_eq_ok_false_iff, fun failure => contains_eq_error_iff, ?_⟩
    rw [get_eq_unbound_iff, contains_eq_ok_false_iff, ← Nat.not_lt, iff_self_and, not_and']
  · refine ⟨f.child s s.isLt, rfl, fun name => ?_, fun t ht name => ?_⟩
    · exact get_congr (get?_child_size s.isLt name.lexeme)
    · exact get_congr (get?_child_of_lt s.isLt ht name.lexeme)
  · exact ⟨f.define s name value, rfl, written_define s.isLt name value⟩
  · refine ⟨f.define r name.lexeme value, perform_assign_of_nearest hr, fun t other => ?_,
      fun i other => binds_define value hr.binds other i⟩
    -- Of the scopes that are seen, only one that binds the name is the nearest.
    have hwritten := written_define (lt_size_of_binds hr.binds) name.lexeme value t other
    exact ⟨fun ⟨hname, hnearest⟩ => hwritten.1 ⟨hname, hnearest.sees⟩,
      fun hnot => hwritten.2 fun ⟨hname, hsees⟩ => hnot ⟨hname, hsees, hr.binds⟩⟩

/-- Two scopes side by side in the global one, which binds a name. -/
def siblings : Scopes :=
  ((global.define 0 "x" (.string "old")).child 0 (by decide)).child 0 (by decide)

theorem reachable_siblings : siblings.Reachable :=
  ((Relation.ReflTransGen.refl.tail ⟨0, .define ⟨0, by decide⟩ "x" (.string "old"), rfl⟩).tail
    ⟨0, .child ⟨0, by decide⟩, rfl⟩).tail ⟨0, .child ⟨0, by decide⟩, rfl⟩

theorem nearest_siblings (t : Nat) (ht : t = 1 ∨ t = 2) : siblings.Nearest t 0 "x" := by
  have hparent : siblings.parent? t = some 0 := by
    rcases ht with rfl | rfl <;> rfl
  have hchain : [t, 0] = siblings.chain t := (Way.outwards hparent (.last rfl)).eq_chain
  have hempty : siblings.binds "x" t = false := by
    rcases ht with rfl | rfl <;> decide
  exact ⟨⟨[t], [], hchain.symm, by simpa using hempty⟩, by decide⟩

/-- What one of two scopes writes to a name around them the other one sees. -/
theorem scope_chain_is_store_siblings :
    let x : Token := { kind := .identifier, lexeme := "x", line := 1 }
    siblings.Reachable ∧ siblings.Nearest 1 0 x.lexeme ∧
      ∃ g, siblings.perform 2 (.assign ⟨1, by decide⟩ x (.string "new")) = (.ok .done, g) ∧
        siblings.get 2 x = .ok (.string "old") ∧ g.get 2 x = .ok (.string "new") := by
  intro x
  obtain ⟨-, hget, -, -, hassign⟩ := scope_chain_is_store reachable_siblings 2
  obtain ⟨g, hperform, hseen, -⟩ :=
    (hassign ⟨1, by decide⟩ x (.string "new")).1 0 (nearest_siblings 1 (.inl rfl))
  have hnearest : siblings.Nearest 2 0 x.lexeme := nearest_siblings 2 (.inr rfl)
  exact ⟨reachable_siblings, nearest_siblings 1 (.inl rfl), g, hperform,
    ((hget 2 x).1 _).mpr ⟨0, hnearest, rfl⟩, (hseen 2 x).1 ⟨rfl, hnearest⟩⟩

/-! ### A way that is too long -/

/-- Scopes each of which is made in the one before, in the global one at
first. -/
def nest : (n : Nat) → { f : Scopes // f.size = n + 1 }
  | 0 => ⟨global, rfl⟩
  | n + 1 =>
    have hn : n < (nest n).1.size := (nest n).2.symm ▸ Nat.lt_succ_self n
    ⟨(nest n).1.child n hn, by rw [size_child, (nest n).2]⟩

theorem reachable_nest (n : Nat) : (nest n).1.Reachable := by
  induction n with
  | zero => exact Relation.ReflTransGen.refl
  | succ n ih =>
      have hn : n < (nest n).1.size := (nest n).2.symm ▸ Nat.lt_succ_self n
      exact ih.tail ⟨0, .child ⟨n, hn⟩, rfl⟩

theorem length_chain_nest (n : Nat) : ((nest n).1.chain n).length = n + 1 := by
  induction n with
  | zero => rw [chain_of_parent?_eq_none rfl, List.length_singleton]
  | succ n ih =>
      have hn : n < (nest n).1.size := (nest n).2.symm ▸ Nat.lt_succ_self n
      have hchain := chain_child_size hn
      rw [(nest n).2] at hchain
      rw [nest, hchain, List.length_cons, ih]

theorem binds_nest (name : String) (n i : Nat) : (nest n).1.binds name i = false := by
  rw [binds_eq_false_iff]
  induction n with
  | zero => cases i <;> rfl
  | succ n ih =>
      rw [nest, bindings_child]
      exact ih

/-- Wherever the limit lies, there are scopes in which a name is unbound, and
the innermost one does not say so. -/
theorem nest_exhausts_levels (levels : Nat) (name : Token) :
    (nest levels).1.get levels name = unbound name ∧
      (nest levels).1.contains name.lexeme levels levels = .error .tooDeep := by
  refine ⟨get_eq_unbound_iff.mpr fun i _ => binds_nest name.lexeme levels i, ?_⟩
  refine contains_eq_error_iff.mpr ⟨rfl, ?_, fun i _ => binds_nest name.lexeme levels i⟩
  rw [length_chain_nest]
  exact Nat.lt_succ_self levels

/-- A thousand levels are not enough for a thousand scopes in the global
one. -/
theorem unbound_name_exhausts_levels :
    let x : Token := { kind := .identifier, lexeme := "x", line := 1 }
    (nest 1000).1.Reachable ∧
      ¬((nest 1000).1.get 1000 x = unbound x ↔
        (nest 1000).1.contains x.lexeme 1000 1000 = .ok false) := by
  intro x
  obtain ⟨hget, hcontains⟩ := nest_exhausts_levels 1000 x
  refine ⟨reachable_nest 1000, fun hiff => ?_⟩
  rw [hcontains] at hiff
  exact nomatch hiff.mp hget

end Scopes

end MiniLox
