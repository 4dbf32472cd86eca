import MiniLox.Proofs.Evaluation.Contents
import MiniLox.Proofs.Evaluation.Placement
import MiniLox.Proofs.Grammar.Parentheses

/-!
What trees of a text are made of. Their literals are the values that numerals and
strings stand for, and their operators and names are tokens that are written as such.
-/

namespace MiniLox

open Grammar hiding Failure

/-- The value can be that of a literal: a number is that of a numeral, and a string holds no
quote. -/
def Value.Legible : Value → Prop
  | nil | boolean _ => True
  | number x => ∃ d : Decimal, x = d.toFloat
  | string s => '"' ∉ s.toList

/-- The token is written like an operator. -/
structure Token.IsOperator (t : Token) : Prop where
  written : t.IsWritten
  kind : (t.kind.isUnary || t.kind.isBinary) = true

/-- The token is written like a name. -/
structure Token.IsName (t : Token) : Prop where
  written : t.IsWritten
  kind : t.kind = .identifier

/-- The tree is made of what a text can hold. -/
def Expr.Legible : Expr → Prop
  | literal v => v.Legible
  | group inner => inner.Legible
  | name token => token.IsName
  | unary operator right => operator.IsOperator ∧ right.Legible
  | binary left operator right => left.Legible ∧ operator.IsOperator ∧ right.Legible
  | misplaced _ _ => False

structure Stmt.Legible (s : Stmt) : Prop where
  named : ∀ name, s.form = .var name → name.IsName
  expr : s.expr.Legible

/-! ### Tokens -/

namespace Token

variable {t : Token}

theorem IsWritten.literal_eq_none (h : t.IsWritten) (hkind : literalType? t.kind = none) :
    t.literal = none := by
  rcases h with ⟨-, -, hnone⟩ | hspells
  · exact hnone
  · have htype := literal_of_spells hspells
    rw [hkind] at htype
    exact Option.map_eq_none_iff.mp htype

theorem IsName.literal_eq_none (h : t.IsName) : t.literal = none := by
  refine h.written.literal_eq_none ?_
  rw [h.kind]
  rfl

theorem IsOperator.literal_eq_none (h : t.IsOperator) : t.literal = none := by
  refine h.written.literal_eq_none ?_
  have hkind := h.kind
  generalize t.kind = k at hkind
  cases k <;> first | contradiction | rfl

theorem IsName.spells (h : t.IsName) : (Lexeme.token .identifier none).Spells t.lexeme.toList := by
  rcases h.written with ⟨hend, -, -⟩ | hspells
  · rw [h.kind] at hend
    contradiction
  · rwa [h.kind, h.literal_eq_none] at hspells

theorem IsWritten.legible_denoted (h : t.IsWritten) : t.denoted.Legible := by
  have hliteral : ∀ v, t.literal = some v → v.Legible := by
    intro v hv
    rcases h with ⟨-, -, hnone⟩ | hspells
    · rw [hnone] at hv
      contradiction
    · rw [hv] at hspells
      generalize t.lexeme.toList = u at hspells
      generalize t.kind = kind at hspells
      cases hspells with
      | whole | fractional => exact ⟨_, rfl⟩
      | string h => simpa [Value.Legible] using h
  unfold denoted
  split
  · exact trivial
  · exact trivial
  · exact trivial
  · cases hvalue : t.literal with
    | none => exact trivial
    | some v => exact hliteral v hvalue

end Token

/-! ### Trees -/

/-- By induction on how the tree is spelled: its nodes are made of the tokens. -/
theorem Expr.SpelledBy.legible {e : Expr} {ts : List Token} (h : e.SpelledBy ts)
    (hlayered : e.Layered) (hts : ∀ t ∈ ts, t.IsWritten) : e.Legible := by
  induction h with
  | literal token => exact (hts token.1 (by simp)).legible_denoted
  | group opening closing hinner ih => exact ih hlayered fun t ht => hts t (by simp [ht])
  | name token => exact ⟨hts token (by simp), hlayered⟩
  | unary operator hright ih =>
      obtain ⟨hkind, hlayered, -⟩ := hlayered
      refine ⟨⟨hts operator (by simp), by simp [hkind]⟩, ?_⟩
      exact ih hlayered fun t ht => hts t (by simp [ht])
  | binary operator hleft hright ihleft ihright =>
      obtain ⟨hkind, hlayered, hlayered', -⟩ := hlayered
      rw [Kind.accepts_tier] at hkind
      refine ⟨?_, ⟨hts operator (by simp), by simp [hkind]⟩, ?_⟩
      · exact ihleft hlayered fun t ht => hts t (by simp [ht])
      · exact ihright hlayered' fun t ht => hts t (by simp [ht])

/-- The name that a declaration binds is one of its tokens. -/
theorem Grammar.Declaration.mem_tokens_of_form {name : Token} (d : Declaration)
    (h : d.stmt.form = .var name) : name ∈ d.tokens := by
  cases d with
  | var keyword token equal value semicolon =>
      obtain rfl : token.1 = name := Form.var.inj h
      simp [Declaration.tokens]
  | print | expression => contradiction

theorem Grammar.Program.legible_of_mem {levels : Nat} {source : String} {tokens : List Token}
    (hscan : Token.scan source = .ok tokens) {s : Stmt}
    (hs : s ∈ (ofTokens levels tokens).statements) : s.Legible := by
  obtain ⟨d, rfl, hwithin⟩ := exists_declaration_of_mem hs
  have hwritten {t : Token} (ht : t ∈ d.tokens) : t.IsWritten :=
    Token.isWritten_of_mem_scan hscan (hwithin.subset ht)
  obtain ⟨hnamed, hlayered⟩ := d.layered
  obtain ⟨ts, hspelled, hsub⟩ := d.exists_expr_spelledBy
  refine ⟨fun name hform => ?_, hspelled.legible hlayered fun t ht => hwritten (hsub ht)⟩
  rw [hform] at hnamed
  exact ⟨hwritten (d.mem_tokens_of_form hform), hnamed⟩

end MiniLox
