import MiniLox.Proofs.Grammar.Acceptance
import MiniLox.Proofs.Grammar.Nesting

/-!
Explicit parentheses. A tree can be written down, whatever its shape, if every
operand with an operator of its own stands in parentheses. What is read from that
is the tree again, with a group around each of these operands: precedence has
nothing left to decide, for no operator stands next to another one.

The parentheses nest as the tree does. So the limit on nesting, which leaves a
tree in general as high as it likes, bounds the height of a tree that is written
down in this way.
-/

namespace MiniLox

open Grammar

/-- The kinds of the operators between operands. -/
def Kind.isBinary (k : Kind) : Bool :=
  k.isEquality || k.isComparison || k.isAdditive || k.isMultiplicative

theorem Kind.accepts_tier (k : Kind) : k.tier.accepts k = k.isBinary := by
  cases k <;> rfl

namespace Expr

/-! ### Trees with explicit groups -/

/-- There is an operator at the root of the tree. -/
def isCompound : Expr → Bool
  | unary _ _ | binary _ _ _ => true
  | literal _ | group _ | name _ | misplaced _ _ => false

/-- The tree as an operand that needs no precedence. -/
def enclosed (e : Expr) : Expr := if e.isCompound then .group e else e

/-- The tree with a group around every operand that has an operator at its
root. -/
def explicit : Expr → Expr
  | literal value => literal value
  | group inner => group inner.explicit
  | name token => name token
  | unary operator right => unary operator right.explicit.enclosed
  | binary left operator right => binary left.explicit.enclosed operator right.explicit.enclosed
  | misplaced form body => misplaced form body

/-- The tree is put together in any shape out of values, names, groups and the
operators of the language. -/
def Composed : Expr → Prop
  | literal _ => True
  | group inner => inner.Composed
  | name token => token.kind = .identifier
  | unary operator right => operator.kind.isUnary = true ∧ right.Composed
  | binary left operator right => operator.kind.isBinary = true ∧ left.Composed ∧ right.Composed
  | misplaced _ _ => False

/-- The tokens of an operand, given those of its tree: they stand in parentheses
if there is an operator at the root. -/
inductive Enclosed (e : Expr) (ts : List Token) : List Token → Prop where
  | bare (h : e.isCompound = false) : Enclosed e ts ts
  | inParens (h : e.isCompound = true) (opening : Terminal (· == .leftParen))
      (closing : Terminal (· == .rightParen)) :
      Enclosed e ts (opening.1 :: (ts ++ [closing.1]))

/-- The tokens are those of the nodes of a tree in their order, and every operand
with an operator at its root stands in parentheses. Apart from these there are only
the parentheses of the groups in the tree. -/
inductive WrittenOut : Expr → List Token → Prop where
  | literal (token : Terminal Kind.isLiteral) : WrittenOut (.literal token.1.denoted) [token.1]
  | group {inner : Expr} {ts : List Token} (opening : Terminal (· == .leftParen))
      (closing : Terminal (· == .rightParen)) (hinner : WrittenOut inner ts) :
      WrittenOut (.group inner) (opening.1 :: (ts ++ [closing.1]))
  | name (token : Terminal (· == .identifier)) : WrittenOut (.name token.1) [token.1]
  | unary {right : Expr} {ts us : List Token} (operator : Terminal Kind.isUnary)
      (hright : WrittenOut right ts) (hoperand : right.Enclosed ts us) :
      WrittenOut (.unary operator.1 right) (operator.1 :: us)
  | binary {left right : Expr} {ts us ts' vs : List Token} (operator : Terminal Kind.isBinary)
      (hleft : WrittenOut left ts) (hoperand : left.Enclosed ts us)
      (hright : WrittenOut right ts') (hoperand' : right.Enclosed ts' vs) :
      WrittenOut (.binary left operator.1 right) (us ++ operator.1 :: vs)

theorem isCompound_explicit (e : Expr) : e.explicit.isCompound = e.isCompound := by
  cases e <;> rfl

/-- An operand in parentheses can stand anywhere. -/
theorem level_enclosed (e : Expr) : e.enclosed.level = .primary := by
  cases e <;> rfl

theorem Layered.enclosed {e : Expr} (h : e.Layered) : e.enclosed.Layered := by
  rw [Expr.enclosed]
  split
  · exact h
  · exact h

theorem Layered.composed {e : Expr} (h : e.Layered) : e.Composed := by
  induction e with
  | literal value => trivial
  | group inner ih => exact ih h
  | name token => exact h
  | unary operator right ih =>
      obtain ⟨hsign, hright, -⟩ := h
      exact ⟨hsign, ih hright⟩
  | binary left operator right ihleft ihright =>
      obtain ⟨haccepts, hleft, hright, -, -⟩ := h
      exact ⟨operator.kind.accepts_tier ▸ haccepts, ihleft hleft, ihright hright⟩
  | misplaced form body => exact h.elim

/-- With explicit groups a tree has a place in the grammar, whatever its
shape. -/
theorem Composed.layered_explicit {e : Expr} (h : e.Composed) : e.explicit.Layered := by
  induction e with
  | literal value => trivial
  | group inner ih => exact ih h
  | name token => exact h
  | unary operator right ih =>
      obtain ⟨hsign, hright⟩ := h
      refine ⟨hsign, (ih hright).enclosed, ?_⟩
      rw [level_enclosed]
      exact Level.le_primary _
  | binary left operator right ihleft ihright =>
      obtain ⟨hbinary, hleft, hright⟩ := h
      refine ⟨operator.kind.accepts_tier ▸ hbinary, (ihleft hleft).enclosed,
        (ihright hright).enclosed, ?_, ?_⟩
      · rw [level_enclosed]
        exact Level.le_primary _
      · rw [level_enclosed]
        cases operator.kind.tier <;> decide
  | misplaced form body => exact h.elim

/-! ### What is written out -/

theorem Enclosed.spelledBy {e : Expr} {ts us : List Token} (h : e.Enclosed ts us)
    (hspelled : e.explicit.SpelledBy ts) : e.explicit.enclosed.SpelledBy us := by
  cases h with
  | bare h =>
      rw [Expr.enclosed, isCompound_explicit, h]
      exact hspelled
  | inParens h opening closing =>
      rw [Expr.enclosed, isCompound_explicit, h]
      exact .group opening closing hspelled

/-- The tokens spell the tree with explicit groups. -/
theorem WrittenOut.spelledBy {e : Expr} {ts : List Token} (h : e.WrittenOut ts) :
    e.explicit.SpelledBy ts := by
  induction h with
  | literal token => exact .literal token
  | group opening closing hinner ih => exact .group opening closing ih
  | name token => exact .name token.1
  | unary operator hright hoperand ih => exact .unary operator.1 (hoperand.spelledBy ih)
  | binary operator hleft hoperand hright hoperand' ihleft ihright =>
      exact .binary operator.1 (hoperand.spelledBy ihleft) (hoperand'.spelledBy ihright)

theorem WrittenOut.composed {e : Expr} {ts : List Token} (h : e.WrittenOut ts) : e.Composed := by
  induction h with
  | literal token => trivial
  | group opening closing hinner ih => exact ih
  | name token => exact eq_of_beq token.2
  | unary operator hright hoperand ih => exact ⟨operator.2, ih⟩
  | binary operator hleft hoperand hright hoperand' ihleft ihright =>
      exact ⟨operator.2, ihleft, ihright⟩

theorem exists_enclosed (e : Expr) (ts : List Token) : ∃ us, e.Enclosed ts us := by
  cases h : e.isCompound with
  | false => exact ⟨ts, .bare h⟩
  | true => exact ⟨_, .inParens h (terminal .leftParen) (terminal .rightParen)⟩

theorem Composed.exists_writtenOut {e : Expr} (h : e.Composed) : ∃ ts, e.WrittenOut ts := by
  induction e with
  | literal value =>
      obtain ⟨t, rfl⟩ := exists_denoted value
      exact ⟨_, .literal t⟩
  | group inner ih =>
      obtain ⟨ts, hinner⟩ := ih h
      exact ⟨_, .group (terminal .leftParen) (terminal .rightParen) hinner⟩
  | name token => exact ⟨_, .name ⟨token, beq_iff_eq.mpr h⟩⟩
  | unary operator right ih =>
      obtain ⟨hsign, hright⟩ := h
      obtain ⟨ts, hright⟩ := ih hright
      obtain ⟨us, hoperand⟩ := right.exists_enclosed ts
      exact ⟨_, .unary ⟨operator, hsign⟩ hright hoperand⟩
  | binary left operator right ihleft ihright =>
      obtain ⟨hbinary, hleft, hright⟩ := h
      obtain ⟨ts, hleft⟩ := ihleft hleft
      obtain ⟨us, hoperand⟩ := left.exists_enclosed ts
      obtain ⟨ts', hright⟩ := ihright hright
      obtain ⟨vs, hoperand'⟩ := right.exists_enclosed ts'
      exact ⟨_, .binary ⟨operator, hbinary⟩ hleft hoperand hright hoperand'⟩
  | misplaced form body => exact h.elim

/-! ### Height and nesting -/

theorem height_le_of_enclosed {e : Expr} (h : e.enclosed.height < 2 * e.enclosed.nesting) :
    e.height ≤ 2 * e.nesting := by
  rw [enclosed] at h
  split at h
  · simp only [height, nesting] at h
    omega
  · exact Nat.le_of_lt h

/-- With explicit groups every operator stands in parentheses of its own, so a way
down the tree has at most twice as many nodes as it has levels of nesting. -/
theorem Composed.height_enclosed_lt {e : Expr} (h : e.Composed) :
    e.explicit.enclosed.height < 2 * e.explicit.enclosed.nesting := by
  induction e with
  | literal value => exact Nat.one_lt_two
  | group inner ih =>
      have := height_le_of_enclosed (ih h)
      show inner.explicit.height + 1 < 2 * (inner.explicit.nesting + 1)
      omega
  | name token => exact Nat.one_lt_two
  | unary operator right ih =>
      have := ih h.2
      show right.explicit.enclosed.height + 1 + 1 < 2 * (right.explicit.enclosed.nesting + 1 + 1)
      omega
  | binary left operator right ihleft ihright =>
      have := ihleft h.2.1
      have := ihright h.2.2
      show max left.explicit.enclosed.height right.explicit.enclosed.height + 1 + 1 <
        2 * (max left.explicit.enclosed.nesting right.explicit.enclosed.nesting + 1)
      omega
  | misplaced form body => exact h.elim

theorem Composed.height_explicit_le {e : Expr} (h : e.Composed) :
    e.explicit.height ≤ 2 * e.explicit.nesting :=
  height_le_of_enclosed h.height_enclosed_lt

end Expr

/-! ### Statements -/

namespace Stmt

/-- The statement with explicit groups in its expression. -/
def explicit (s : Stmt) : Stmt := { s with expr := s.expr.explicit }

/-- A name that is bound is an identifier, and the expression is put together in
any shape. -/
structure Composed (s : Stmt) : Prop where
  named : s.form.Named
  expr : s.expr.Composed

/-- The tokens are those of a statement with its expression written out. -/
inductive WrittenOut : Stmt → List Token → Prop where
  | var {e : Expr} {ts : List Token} (keyword : Terminal (· == .varWord))
      (name : Terminal (· == .identifier)) (equal : Terminal (· == .equal))
      (semicolon : Terminal (· == .semicolon)) (he : e.WrittenOut ts) :
      WrittenOut { form := .var name.1, expr := e }
        (keyword.1 :: name.1 :: equal.1 :: (ts ++ [semicolon.1]))
  | print {e : Expr} {ts : List Token} (keyword : Terminal (· == .printWord))
      (semicolon : Terminal (· == .semicolon)) (he : e.WrittenOut ts) :
      WrittenOut { form := .print, expr := e } (keyword.1 :: (ts ++ [semicolon.1]))
  | expression {e : Expr} {ts : List Token} (semicolon : Terminal (· == .semicolon))
      (he : e.WrittenOut ts) :
      WrittenOut { form := .expression, expr := e } (ts ++ [semicolon.1])

/-- The tokens are those of the statements written out, one after the other. -/
inductive AllWrittenOut : List Stmt → List Token → Prop where
  | nil : AllWrittenOut [] []
  | cons {s : Stmt} {S : List Stmt} {us vs : List Token} (hs : s.WrittenOut us)
      (hS : AllWrittenOut S vs) : AllWrittenOut (s :: S) (us ++ vs)

theorem Layered.composed {s : Stmt} (h : s.Layered) : s.Composed := ⟨h.named, h.expr.composed⟩

theorem Composed.layered_explicit {s : Stmt} (h : s.Composed) : s.explicit.Layered :=
  ⟨h.named, h.expr.layered_explicit⟩

theorem WrittenOut.spelledBy {s : Stmt} {ts : List Token} (h : s.WrittenOut ts) :
    s.explicit.SpelledBy ts := by
  cases h with
  | var keyword name equal semicolon he => exact .var keyword name.1 equal semicolon he.spelledBy
  | print keyword semicolon he => exact .print keyword semicolon he.spelledBy
  | expression semicolon he => exact .expression semicolon he.spelledBy

theorem WrittenOut.composed {s : Stmt} {ts : List Token} (h : s.WrittenOut ts) : s.Composed := by
  cases h with
  | var keyword name equal semicolon he => exact ⟨eq_of_beq name.2, he.composed⟩
  | print keyword semicolon he => exact ⟨trivial, he.composed⟩
  | expression semicolon he => exact ⟨trivial, he.composed⟩

theorem AllWrittenOut.composed {S : List Stmt} {ts : List Token} (h : AllWrittenOut S ts) :
    ∀ s ∈ S, s.Composed := by
  induction h with
  | nil => simp
  | cons hs hS ih =>
      intro s hmem
      rcases List.mem_cons.mp hmem with rfl | hmem
      · exact hs.composed
      · exact ih s hmem

theorem AllWrittenOut.allSpelledBy {S : List Stmt} {ts : List Token} (h : AllWrittenOut S ts) :
    AllSpelledBy (S.map explicit) ts := by
  induction h with
  | nil => exact .nil
  | cons hs hS ih => exact .cons hs.spelledBy ih

theorem Composed.exists_writtenOut {s : Stmt} (h : s.Composed) : ∃ ts, s.WrittenOut ts := by
  obtain ⟨form, e⟩ := s
  obtain ⟨ts, he⟩ := h.expr.exists_writtenOut
  cases form with
  | expression => exact ⟨_, .expression (terminal .semicolon) he⟩
  | print => exact ⟨_, .print (terminal .printWord) (terminal .semicolon) he⟩
  | var name =>
      have hname : name.kind = .identifier := h.named
      exact ⟨_, .var (terminal .varWord) ⟨name, beq_iff_eq.mpr hname⟩ (terminal .equal)
        (terminal .semicolon) he⟩

theorem exists_allWrittenOut {S : List Stmt} (h : ∀ s ∈ S, s.Composed) :
    ∃ ts, AllWrittenOut S ts := by
  induction S with
  | nil => exact ⟨[], .nil⟩
  | cons s S ih =>
      obtain ⟨us, hs⟩ := (h s (by simp)).exists_writtenOut
      obtain ⟨vs, hS⟩ := ih fun s' hs' => h s' (by simp [hs'])
      exact ⟨us ++ vs, .cons hs hS⟩

end Stmt

namespace Grammar.Program

variable {levels : Nat} {S : List Stmt} {ts : List Token} {last : Token}

/-- Statements that are written out are read with explicit groups, and none of
them is higher than the limit on nesting allows. -/
theorem accepts_writtenOut (hwritten : Stmt.AllWrittenOut S ts) (hlast : last.kind = .endOfText)
    (hdeep : (ofTokens levels (ts ++ [last])).tooDeep = false) :
    (ofTokens levels (ts ++ [last])).errors = [] ∧
      (ofTokens levels (ts ++ [last])).statements = S.map Stmt.explicit ∧
      ∀ s ∈ S, s.expr.explicit.height ≤ 2 * levels := by
  have hS := hwritten.composed
  have hlayered : ∀ s ∈ S.map Stmt.explicit, s.Layered := by
    rw [List.forall_mem_map]
    exact fun s hs => (hS s hs).layered_explicit
  have hderives : Derives ts (S.map Stmt.explicit) :=
    derives_iff.mpr ⟨hlayered, hwritten.allSpelledBy⟩
  have hbefore : ofTokens levels (ts ++ [last]) = ofTokensBefore last levels ts :=
    ofTokens_append_last (unended_of_derives hderives) hlast
  obtain ⟨herrors, hstatements⟩ := accepts_of_derives hderives (hbefore ▸ hdeep)
  rw [hbefore]
  refine ⟨herrors, hstatements, fun s hs => ?_⟩
  have hmem : s.explicit ∈ (ofTokens levels (ts ++ [last])).statements := by
    rw [hbefore, hstatements]
    exact List.mem_map_of_mem hs
  have hnesting : s.expr.explicit.nesting ≤ levels := nesting_le_of_mem hmem
  calc
    s.expr.explicit.height ≤ 2 * s.expr.explicit.nesting := (hS s hs).expr.height_explicit_le
    _ ≤ 2 * levels := Nat.mul_le_mul_left 2 hnesting

end Grammar.Program

end MiniLox
