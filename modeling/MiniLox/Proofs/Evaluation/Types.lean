import MiniLox.Proofs.Evaluation.Blame
import MiniLox.Proofs.Scopes.Define

/-!
Programs run on types alone. Every value is replaced by its type, and an
operator acts on types by a table: where the table has no entry the operator
fails. Such a run prints types, binds names to types and ends like the run of
the same statements on values: no value decides whether a program fails, only
its type does.

For a tree of a text the two evaluations agree, unless the one on values runs
out of levels; from there the runs agree statement by statement.
-/

namespace MiniLox

open Evaluation

/-! ### Operators on types -/

/-- The kinds of the operators that apply to numbers alone. -/
def Kind.isNumeric (k : Kind) : Bool := k == minus || k.isMultiplicative || k.isComparison

namespace ValueType

/-- The type that an operator before its operand makes of the type of the
operand, if it applies to it. -/
def unary? : Kind → ValueType → Option ValueType
  | .bang, _ => some .boolean
  | .minus, .number => some .number
  | _, _ => none

/-- The type that an operator between its operands makes of their types, if it
applies to them. -/
def binary? : Kind → ValueType → ValueType → Option ValueType
  | .equalEqual, _, _ => some .boolean
  | .bangEqual, _, _ => some .boolean
  | .plus, .number, .number => some .number
  | .plus, .string, .string => some .string
  | .minus, .number, .number => some .number
  | .star, .number, .number => some .number
  | .slash, .number, .number => some .number
  | .greater, .number, .number => some .boolean
  | .greaterEqual, .number, .number => some .boolean
  | .less, .number, .number => some .boolean
  | .lessEqual, .number, .number => some .boolean
  | _, _, _ => none

/-- What is wrong with two operands to which their operator does not apply. -/
def misfit (operator : Kind) (left right : ValueType) : RuntimeFault :=
  if operator = .plus then .addends left right else .operands left right

/-- The type that an operator token makes, or the error that it is to blame
for. -/
def unary (operator : Token) (right : ValueType) : Except RuntimeError ValueType :=
  match unary? operator.kind right with
  | some type => .ok type
  | none => .error { token := operator, fault := .operand right }

def binary (operator : Token) (left right : ValueType) : Except RuntimeError ValueType :=
  match binary? operator.kind left right with
  | some type => .ok type
  | none => .error { token := operator, fault := misfit operator.kind left right }

end ValueType

/-- Operators on numbers apply to nothing else. -/
theorem ValueType.binary?_eq_none {k : Kind} (hk : k.isNumeric = true) {l r : ValueType}
    (h : l ≠ .number ∨ r ≠ .number) : binary? k l r = none := by
  unfold binary?
  split <;> first | rfl | contradiction

/-! ### Runs on types -/

/-- The types that names stand for. -/
abbrev Types := String → Option ValueType

/-- The type of an expression. -/
def Expr.typeOf (types : Types) : Expr → Except RuntimeError ValueType
  | literal value => .ok value.type
  | group inner => inner.typeOf types
  | name token =>
    match types token.lexeme with
    | some type => .ok type
    | none => .error { token := token, fault := .undefined }
  | unary operator right => do
    let r ← right.typeOf types
    ValueType.unary operator r
  | binary left operator right => do
    let l ← left.typeOf types
    let r ← right.typeOf types
    ValueType.binary operator l r
  | misplaced _ body => body.typeOf types

/-- The outcome of a run on types: what the names stand for at its end, the
types printed, and the error that ended it before all statements were
through. -/
structure TypesRun where
  types : Types
  printed : List ValueType := []
  error : Option RuntimeError := none

namespace Types

/-- No name stands for anything. -/
def empty : Types := fun _ => none

def bind (types : Types) (name : String) (type : ValueType) : Types :=
  fun other => if other = name then some type else types other

/-- What a statement of some form does with a type: the names after it and
what it prints. -/
def perform (types : Types) (type : ValueType) : Form → Types × List ValueType
  | .expression => (types, [])
  | .print => (types, [type])
  | .var name => (types.bind name.lexeme type, [])

/-- Statements in their order, up to the first that fails. -/
def run (types : Types) : List Stmt → TypesRun
  | [] => { types := types }
  | s :: ss =>
    match s.expr.typeOf types with
    | .ok type =>
      let (next, printed) := types.perform type s.form
      let rest := run next ss
      { rest with printed := printed ++ rest.printed }
    | .error e => { types := types, error := some e }

end Types

/-! ### Agreement -/

/-- A value and its type, or one and the same error. -/
inductive Agree : Except Evaluation.Failure Value → Except RuntimeError ValueType → Prop where
  | ok (v : Value) : Agree (.ok v) (.ok v.type)
  | error (e : RuntimeError) : Agree (.error (.error e)) (.error e)

theorem Agree.bind {x : Except Evaluation.Failure Value} {y : Except RuntimeError ValueType}
    {f : Value → Except Evaluation.Failure Value} {g : ValueType → Except RuntimeError ValueType}
    (h : Agree x y) (hnext : ∀ v, x = .ok v → Agree (f v) (g v.type)) :
    Agree (x >>= f) (y >>= g) := by
  cases h with
  | ok v => exact hnext v rfl
  | error e => exact .error e

namespace Evaluation

variable {operator : Token}

theorem unary_agree (h : operator.kind.isUnary = true) (v : Value) :
    Agree (unary operator v) (ValueType.unary operator v.type) := by
  simp only [Kind.isUnary, Bool.or_eq_true, beq_iff_eq] at h
  unfold unary ValueType.unary
  rcases h with h | h
  · rw [h]
    exact .ok _
  · rw [h]
    cases v with
    | number x => exact .ok _
    | nil | boolean | string => exact .error _

theorem onNumbers_agree {apply : Float → Float → Value}
    (hkind : operator.kind.isNumeric = true)
    (happly : ∀ x y, ValueType.binary? operator.kind .number .number = some (apply x y).type)
    (v w : Value) :
    Agree (onNumbers operator apply v w) (ValueType.binary operator v.type w.type) := by
  have hmisfit (l r : ValueType) (h : l ≠ .number ∨ r ≠ .number) :
      ValueType.binary operator l r =
        .error { token := operator, fault := .operands l r } := by
    have hplus : operator.kind ≠ .plus := by
      intro hk
      rw [hk] at hkind
      contradiction
    rw [ValueType.binary, ValueType.binary?_eq_none hkind h, ValueType.misfit, if_neg hplus]
  unfold onNumbers
  split
  · next x y =>
      rw [Value.type_number, Value.type_number, ValueType.binary, happly x y]
      exact .ok _
  · next hnot =>
      rw [hmisfit]
      · exact .error _
      · cases v with
        | number x =>
            cases w with
            | number y => exact absurd rfl (hnot x y rfl)
            | nil | boolean | string => simp
        | nil | boolean | string => simp

theorem add_agree (h : operator.kind = .plus) (v w : Value) :
    Agree (add operator v w) (ValueType.binary operator v.type w.type) := by
  unfold ValueType.binary
  rw [h]
  cases v with
  | number x =>
      cases w with
      | number y => exact .ok _
      | nil | boolean | string => exact .error _
  | string s =>
      cases w with
      | string t => exact .ok _
      | nil | boolean | number => exact .error _
  | nil | boolean => cases w <;> exact .error _

theorem binary_agree {tier : Grammar.Tier} (h : tier.accepts operator.kind = true) (v w : Value) :
    Agree (binary operator v w) (ValueType.binary operator v.type w.type) := by
  unfold binary
  cases tier with
  | equality =>
      simp only [Grammar.Tier.accepts, Kind.isEquality, Bool.or_eq_true, beq_iff_eq] at h
      unfold ValueType.binary
      rcases h with h | h <;> rw [h] <;> exact .ok _
  | comparison =>
      simp only [Grammar.Tier.accepts, Kind.isComparison, Bool.or_eq_true, beq_iff_eq] at h
      rcases h with ((h | h) | h) | h <;> rw [h] <;>
        exact onNumbers_agree (by rw [h]; rfl) (fun _ _ => by rw [h]; rfl) v w
  | term =>
      simp only [Grammar.Tier.accepts, Kind.isAdditive, Bool.or_eq_true, beq_iff_eq] at h
      rcases h with h | h
      · rw [h]
        exact onNumbers_agree (by rw [h]; rfl) (fun _ _ => by rw [h]; rfl) v w
      · rw [h]
        exact add_agree h v w
  | factor =>
      simp only [Grammar.Tier.accepts, Kind.isMultiplicative, Bool.or_eq_true, beq_iff_eq] at h
      rcases h with h | h <;> rw [h] <;>
        exact onNumbers_agree (by rw [h]; rfl) (fun _ _ => by rw [h]; rfl) v w

end Evaluation

namespace Expr

variable {lookup : String → Option Value} {types : Types} {levels : Nat}

/-- The value of a tree of a text has the type that the tree has, and one that
has no value has no type for the same reason, unless the tree is too high. -/
theorem Layered.evaluate_agrees {e : Expr} (h : e.Layered)
    (hlookup : ∀ name, (lookup name).map Value.type = types name)
    (hdeep : e.evaluate lookup levels ≠ .error .tooDeep) :
    Agree (e.evaluate lookup levels) (e.typeOf types) := by
  fun_induction evaluate lookup e levels with
  | case1 e => exact absurd rfl hdeep
  | case2 value levels => exact .ok value
  | case3 inner levels ih => exact ih h hdeep
  | case4 token levels =>
      rw [meaning, typeOf, ← hlookup]
      cases lookup token.lexeme with
      | none => exact .error _
      | some v => exact .ok v
  | case5 operator right levels ih =>
      obtain ⟨hoperator, hright, -⟩ := h
      have hagree := ih hright fun hfails => hdeep (by rw [hfails]; rfl)
      exact hagree.bind fun v _ => unary_agree hoperator v
  | case6 left operator right levels ihleft ihright =>
      obtain ⟨haccepts, hleft, hright, -⟩ := h
      have hagree := ihleft hleft fun hfails => hdeep (by rw [hfails]; rfl)
      refine hagree.bind fun v hv => ?_
      -- Only now it matters that the right operand is not too high.
      have hagree' := ihright hright fun hfails => hdeep (by rw [hv, hfails]; rfl)
      exact hagree'.bind fun w _ => binary_agree haccepts v w
  | case7 form body levels => exact h.elim

end Expr

/-- A run on values and one on types do the same: they end for the same
reason, print values and types that belong together, and leave values and
types that belong together bound to the names. -/
structure Execution.Follows (ran : Execution) (typed : TypesRun) : Prop where
  failure : ran.failure = typed.error.map .error
  printed : ran.printed.map Value.type = typed.printed
  lookup : ∀ name, (ran.machine.lookup name).map Value.type = typed.types name

namespace Machine

variable {m : Machine} {types : Types} {ss : List Stmt}

/-- What a statement does with a value it does with the type of the value. -/
theorem perform_follows (hlookup : ∀ name, (m.lookup name).map Value.type = types name) (v : Value)
    (form : Form) :
    (∀ name, ((form.perform m v).1.lookup name).map Value.type =
        (types.perform v.type form).1 name) ∧
      (form.perform m v).2.map Value.type = (types.perform v.type form).2 := by
  cases form with
  | expression => exact ⟨hlookup, rfl⟩
  | print => exact ⟨hlookup, rfl⟩
  | var token =>
      refine ⟨fun name => ?_, rfl⟩
      show ((m.define token.lexeme v).lookup name).map Value.type =
        if name = token.lexeme then some v.type else types name
      rw [lookup_define]
      split
      · rfl
      · exact hlookup name

theorem run_follows (hlookup : ∀ name, (m.lookup name).map Value.type = types name)
    (hss : ∀ s ∈ ss, s.expr.Layered) (hdeep : (m.run ss).failure ≠ some .tooDeep) :
    (m.run ss).Follows (types.run ss) := by
  induction ss generalizing m types with
  | nil => exact ⟨rfl, rfl, hlookup⟩
  | cons s ss ih =>
      have hagree : Agree (m.evaluate s.expr) (s.expr.typeOf types) := by
        refine (hss s (List.mem_cons_self ..)).evaluate_agrees hlookup fun hfails => ?_
        rw [run_cons_of_error hfails] at hdeep
        exact hdeep rfl
      generalize hvalue : m.evaluate s.expr = x at hagree
      generalize htype : s.expr.typeOf types = y at hagree
      cases hagree with
      | error e =>
          rw [run_cons_of_error hvalue, Types.run, htype]
          exact ⟨rfl, rfl, hlookup⟩
      | ok v =>
          rw [run_cons_of_ok hvalue] at hdeep ⊢
          rw [Types.run, htype]
          obtain ⟨hnext, hprinted⟩ := perform_follows hlookup v s.form
          have hrest := ih hnext (fun s' hs' => hss s' (List.mem_cons_of_mem s hs')) hdeep
          refine ⟨hrest.failure, ?_, hrest.lookup⟩
          rw [List.map_append, hprinted, hrest.printed]

end Machine

end MiniLox
