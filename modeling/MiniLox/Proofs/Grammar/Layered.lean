import MiniLox.Proofs.Grammar.Derivation

/-!
Which trees the grammar builds, said without it. A tree is layered if the
operands of its operators bind tightly enough: on the left of a binary
operator at least as tightly as the operator, on the right more tightly, and
after a sign an operand with or without a sign. Only a group is free to hold
any expression.

A tree is spelled by the tokens of its nodes in their order, where nothing is
put around an operand. Derivations and spellings of layered trees are the
same thing.
-/

namespace MiniLox

open Grammar

/-- The tier of a binary operator. -/
def Kind.tier (k : Kind) : Tier :=
  if k.isEquality then .equality
  else if k.isComparison then .comparison
  else if k.isAdditive then .term
  else .factor

theorem Kind.tier_of_accepts {tier : Tier} {k : Kind} (h : tier.accepts k = true) :
    k.tier = tier := by
  cases tier <;> cases k <;> first | rfl | contradiction

namespace Grammar

/-- The number of levels that are looser. -/
def Level.rank : Level → Nat
  | binary .equality => 0
  | binary .comparison => 1
  | binary .term => 2
  | binary .factor => 3
  | unary => 4
  | primary => 5

instance : LE Level := ⟨fun a b => a.rank ≤ b.rank⟩

instance : LT Level := ⟨fun a b => a.rank < b.rank⟩

theorem Level.le_def {a b : Level} : a ≤ b ↔ a.rank ≤ b.rank := Iff.rfl

theorem Level.lt_def {a b : Level} : a < b ↔ a.rank < b.rank := Iff.rfl

instance (a b : Level) : Decidable (a ≤ b) := inferInstanceAs (Decidable (a.rank ≤ b.rank))

instance (a b : Level) : Decidable (a < b) := inferInstanceAs (Decidable (a.rank < b.rank))

theorem Level.le_refl (a : Level) : a ≤ a := Nat.le_refl a.rank

theorem Level.le_trans {a b c : Level} (hab : a ≤ b) (hbc : b ≤ c) : a ≤ c :=
  Nat.le_trans hab hbc

theorem Level.le_primary (a : Level) : a ≤ .primary := by
  rcases a with tier | _ | _
  · cases tier <;> decide
  · decide
  · decide

theorem Level.expression_le (a : Level) : .expression ≤ a := Nat.zero_le a.rank

/-- The operands of a tier are of the next level. -/
theorem Tier.rank_operand (tier : Tier) :
    tier.operand.rank = (Level.binary tier).rank + 1 := by
  cases tier <;> rfl

theorem Tier.operand_le_iff {tier : Tier} {a : Level} :
    tier.operand ≤ a ↔ Level.binary tier < a := by
  rw [Level.le_def, Level.lt_def, tier.rank_operand]
  omega

theorem Level.eq_of_rank_eq {a b : Level} (h : a.rank = b.rank) : a = b := by
  rcases a with (_ | _ | _ | _) | _ | _ <;> rcases b with (_ | _ | _ | _) | _ | _ <;>
    first | rfl | contradiction

/-- What goes down from operands to what they are operands of goes down to
every looser level. -/
theorem Level.descend {P : Level → Prop} (hunary : P .primary → P .unary)
    (hbinary : ∀ tier : Tier, P tier.operand → P (.binary tier)) {a b : Level} (hab : a ≤ b)
    (hb : P b) : P a := by
  obtain ⟨n, hn⟩ := Nat.exists_eq_add_of_le hab
  induction n generalizing a with
  | zero => exact Level.eq_of_rank_eq hn ▸ hb
  | succ n ih =>
      rcases a with tier | _ | _
      · have hrank : b.rank = tier.operand.rank + n := by
          rw [tier.rank_operand]
          omega
        exact hbinary tier (ih (Nat.le.intro hrank.symm) hrank)
      · obtain rfl : b = .primary := by
          refine Level.eq_of_rank_eq (Nat.le_antisymm b.le_primary ?_)
          simp only [Level.rank] at hn ⊢
          omega
        exact hunary hb
      · have := Level.le_def.mp b.le_primary
        omega

end Grammar

/-! ### Layered trees -/

namespace Expr

/-- The level at which the root of a tree is put together. -/
def level : Expr → Level
  | binary _ operator _ => .binary operator.kind.tier
  | unary _ _ => .unary
  | literal _ | group _ | name _ | misplaced _ _ => .primary

/-- The operands of every operator bind tightly enough. -/
def Layered : Expr → Prop
  | literal _ => True
  | group inner => inner.Layered
  | name token => token.kind = .identifier
  | unary operator right =>
    operator.kind.isUnary = true ∧ right.Layered ∧ .unary ≤ right.level
  | binary left operator right =>
    operator.kind.tier.accepts operator.kind = true ∧ left.Layered ∧ right.Layered ∧
      .binary operator.kind.tier ≤ left.level ∧ .binary operator.kind.tier < right.level
  | misplaced _ _ => False

/-- The tokens are those of the nodes of a tree, in their order. -/
inductive SpelledBy : Expr → List Token → Prop where
  | literal (token : Terminal Kind.isLiteral) : SpelledBy (.literal token.1.denoted) [token.1]
  | group {inner : Expr} {ts : List Token} (opening : Terminal (· == .leftParen))
      (closing : Terminal (· == .rightParen)) (hinner : SpelledBy inner ts) :
      SpelledBy (.group inner) (opening.1 :: (ts ++ [closing.1]))
  | name (token : Token) : SpelledBy (.name token) [token]
  | unary {right : Expr} {ts : List Token} (operator : Token) (hright : SpelledBy right ts) :
      SpelledBy (.unary operator right) (operator :: ts)
  | binary {left right : Expr} {us vs : List Token} (operator : Token)
      (hleft : SpelledBy left us) (hright : SpelledBy right vs) :
      SpelledBy (.binary left operator right) (us ++ operator :: vs)

end Expr

/-- The name that a statement binds, if any, is an identifier. -/
def Form.Named : Form → Prop
  | var name => name.kind = .identifier
  | print | expression => True

/-- The parts of a statement are as the grammar has them. -/
structure Stmt.Layered (s : Stmt) : Prop where
  named : s.form.Named
  expr : s.expr.Layered

/-- The tokens are those of a statement and its expression. -/
inductive Stmt.SpelledBy : Stmt → List Token → Prop where
  | var {e : Expr} {ts : List Token} (keyword : Terminal (· == .varWord)) (name : Token)
      (equal : Terminal (· == .equal)) (semicolon : Terminal (· == .semicolon))
      (he : e.SpelledBy ts) :
      SpelledBy { form := .var name, expr := e }
        (keyword.1 :: name :: equal.1 :: (ts ++ [semicolon.1]))
  | print {e : Expr} {ts : List Token} (keyword : Terminal (· == .printWord))
      (semicolon : Terminal (· == .semicolon)) (he : e.SpelledBy ts) :
      SpelledBy { form := .print, expr := e } (keyword.1 :: (ts ++ [semicolon.1]))
  | expression {e : Expr} {ts : List Token} (semicolon : Terminal (· == .semicolon))
      (he : e.SpelledBy ts) :
      SpelledBy { form := .expression, expr := e } (ts ++ [semicolon.1])

/-- The tokens are those of the statements, one after the other. -/
inductive Stmt.AllSpelledBy : List Stmt → List Token → Prop where
  | nil : AllSpelledBy [] []
  | cons {s : Stmt} {S : List Stmt} {us vs : List Token} (hs : s.SpelledBy us)
      (hS : AllSpelledBy S vs) : AllSpelledBy (s :: S) (us ++ vs)

namespace Grammar

/-! ### From derivations to layered trees -/

/-- A tree can stand where a phrase of the level is asked for, and the tokens
spell it. -/
structure Level.Fits (level : Level) (e : Expr) (ts : List Token) : Prop where
  layered : e.Layered
  le_level : level ≤ e.level
  spelledBy : e.SpelledBy ts

theorem Level.Fits.of_operand {tier : Tier} {e : Expr} {ts : List Token}
    (h : tier.operand.Fits e ts) : (Level.binary tier).Fits e ts := by
  have hlt := Tier.operand_le_iff.mp h.le_level
  exact ⟨h.layered, Nat.le_of_lt hlt, h.spelledBy⟩

/-- A tree of a tier, an operator of the tier and an operand make a tree of
the tier. -/
theorem Level.Fits.binary {tier : Tier} {left right : Expr} {us vs : List Token}
    (hleft : (Level.binary tier).Fits left us) (operator : Terminal tier.accepts)
    (hright : tier.operand.Fits right vs) :
    (Level.binary tier).Fits (.binary left operator.1 right) (us ++ operator.1 :: vs) := by
  have htier := Kind.tier_of_accepts operator.2
  have hlt := Tier.operand_le_iff.mp hright.le_level
  refine ⟨⟨?_, hleft.layered, hright.layered, ?_, ?_⟩, ?_, ?_⟩
  · rw [htier]
    exact operator.2
  · rw [htier]
    exact hleft.le_level
  · rw [htier]
    exact hlt
  · rw [Expr.level, htier]
    exact Level.le_refl _
  · exact .binary operator.1 hleft.spelledBy hright.spelledBy

mutual

theorem Phrase.fits : ∀ {level : Level} (p : Phrase level), level.Fits p.tree p.tokens
  | _, .chain first rest => rest.fits first.fits.of_operand
  | _, .signed sign operand => by
      have h := operand.fits
      exact ⟨⟨sign.2, h.layered, h.le_level⟩, Level.le_refl _, .unary sign.1 h.spelledBy⟩
  | _, .plain operand => by
      have h := operand.fits
      have hle : Level.unary ≤ .primary := by decide
      exact ⟨h.layered, Level.le_trans hle h.le_level, h.spelledBy⟩
  | _, .literal token => ⟨trivial, Level.le_refl _, .literal token⟩
  | _, .name token => ⟨eq_of_beq token.2, Level.le_refl _, .name token.1⟩
  | _, .group opening inner closing => by
      have h := inner.fits
      exact ⟨h.layered, Level.le_refl _, .group opening closing h.spelledBy⟩

theorem Operations.fits : ∀ {tier : Tier} (o : Operations tier) {left : Expr} {us : List Token},
    (Level.binary tier).Fits left us →
      (Level.binary tier).Fits (o.appliedTo left) (us ++ o.tokens)
  | _, .none, left, us, hleft => by
      rw [Operations.tokens_none, List.append_nil]
      exact hleft
  | _, .more operator right rest, left, us, hleft => by
      have h := rest.fits (hleft.binary operator right.fits)
      simpa [Operations.appliedTo] using h

end

/-! ### From layered trees to derivations -/

/-- One more operator, behind the others. -/
def Operations.snoc {tier : Tier} (o : Operations tier) (operator : Terminal tier.accepts)
    (right : Phrase tier.operand) : Operations tier :=
  match o with
  | .none => .more operator right .none
  | .more first operand rest => .more first operand (rest.snoc operator right)

@[simp] theorem Operations.tokens_snoc {tier : Tier} (o : Operations tier)
    (operator : Terminal tier.accepts) (right : Phrase tier.operand) :
    (o.snoc operator right).tokens = o.tokens ++ operator.1 :: right.tokens := by
  match o with
  | .none => simp [Operations.snoc]
  | .more first operand rest => simp [Operations.snoc, rest.tokens_snoc operator right]

@[simp] theorem Operations.appliedTo_snoc {tier : Tier} (o : Operations tier)
    (operator : Terminal tier.accepts) (right : Phrase tier.operand) (left : Expr) :
    (o.snoc operator right).appliedTo left =
      .binary (o.appliedTo left) operator.1 right.tree := by
  match o with
  | .none => rfl
  | .more first operand rest => exact rest.appliedTo_snoc operator right _

/-- A derivation at a tighter level is part of one at every looser level. -/
theorem Phrase.exists_looser {a b : Level} (hab : a ≤ b) (p : Phrase b) :
    ∃ q : Phrase a, q.tokens = p.tokens ∧ q.tree = p.tree := by
  refine Level.descend (P := fun a => ∃ q : Phrase a, q.tokens = p.tokens ∧ q.tree = p.tree)
    ?_ ?_ hab ⟨p, rfl, rfl⟩
  · rintro ⟨q, htokens, htree⟩
    exact ⟨.plain q, htokens, htree⟩
  · rintro tier ⟨q, htokens, htree⟩
    exact ⟨.chain q .none, by simpa using htokens, htree⟩

/-- Whatever spells a layered tree has a derivation at every level that is
not tighter than the tree. -/
theorem Level.Fits.exists_phrase {level : Level} {e : Expr} {ts : List Token}
    (h : level.Fits e ts) : ∃ p : Phrase level, p.tokens = ts ∧ p.tree = e := by
  obtain ⟨hlayered, hle, hspelled⟩ := h
  induction hspelled generalizing level with
  | literal token => exact (Phrase.literal token).exists_looser hle
  | name token => exact (Phrase.name ⟨token, beq_iff_eq.mpr hlayered⟩).exists_looser hle
  | group opening closing hinner ih =>
      obtain ⟨p, rfl, rfl⟩ := ih hlayered (Level.expression_le _)
      exact (Phrase.group opening p closing).exists_looser hle
  | unary operator hright ih =>
      obtain ⟨hsign, hright, hunary⟩ := hlayered
      obtain ⟨p, rfl, rfl⟩ := ih hright hunary
      exact (Phrase.signed ⟨operator, hsign⟩ p).exists_looser hle
  | binary operator hleft hright ihleft ihright =>
      obtain ⟨haccepts, hleft, hright, hlevel, hlt⟩ := hlayered
      obtain ⟨p, rfl, rfl⟩ := ihleft hleft hlevel
      obtain ⟨q, rfl, rfl⟩ := ihright hright (Tier.operand_le_iff.mpr hlt)
      cases p with
      | chain first rest =>
          have htier : level ≤ .binary operator.kind.tier := hle
          obtain ⟨r, htokens, htree⟩ :=
            (Phrase.chain first (rest.snoc ⟨operator, haccepts⟩ q)).exists_looser htier
          refine ⟨r, ?_, ?_⟩
          · rw [htokens, Phrase.tokens_chain, Operations.tokens_snoc, Phrase.tokens_chain,
              List.append_assoc]
          · rw [htree]
            exact rest.appliedTo_snoc _ _ _

theorem Declaration.layered (d : Declaration) : d.stmt.Layered := by
  cases d with
  | var keyword name equal value semicolon => exact ⟨eq_of_beq name.2, value.fits.layered⟩
  | print keyword value semicolon => exact ⟨trivial, value.fits.layered⟩
  | expression value semicolon => exact ⟨trivial, value.fits.layered⟩

theorem Declaration.spelledBy (d : Declaration) : d.stmt.SpelledBy d.tokens := by
  cases d with
  | var keyword name equal value semicolon =>
      exact .var keyword name.1 equal semicolon value.fits.spelledBy
  | print keyword value semicolon => exact .print keyword semicolon value.fits.spelledBy
  | expression value semicolon => exact .expression semicolon value.fits.spelledBy

theorem exists_declaration {s : Stmt} {ts : List Token} (hs : s.Layered) (h : s.SpelledBy ts) :
    ∃ d : Declaration, d.tokens = ts ∧ d.stmt = s := by
  have hphrase {e : Expr} {us : List Token} (he : e.Layered) (hspelled : e.SpelledBy us) :
      ∃ p : Phrase .expression, p.tokens = us ∧ p.tree = e :=
    Level.Fits.exists_phrase ⟨he, Level.expression_le _, hspelled⟩
  cases h with
  | var keyword name equal semicolon he =>
      obtain ⟨p, rfl, rfl⟩ := hphrase hs.expr he
      exact ⟨.var keyword ⟨name, beq_iff_eq.mpr hs.named⟩ equal p semicolon, rfl, rfl⟩
  | print keyword semicolon he =>
      obtain ⟨p, rfl, rfl⟩ := hphrase hs.expr he
      exact ⟨.print keyword p semicolon, rfl, rfl⟩
  | expression semicolon he =>
      obtain ⟨p, rfl, rfl⟩ := hphrase hs.expr he
      exact ⟨.expression p semicolon, rfl, rfl⟩

/-- The statements of derivations are the layered ones, and the tokens of the
derivations are those that spell them. -/
theorem derives_iff {S : List Stmt} {ts : List Token} :
    Derives ts S ↔ (∀ s ∈ S, s.Layered) ∧ Stmt.AllSpelledBy S ts := by
  constructor
  · rintro ⟨ds, rfl, rfl⟩
    refine ⟨fun s hs => ?_, ?_⟩
    · obtain ⟨d, -, rfl⟩ := List.mem_map.mp hs
      exact d.layered
    · induction ds with
      | nil => exact .nil
      | cons d ds ih => exact .cons d.spelledBy ih
  · rintro ⟨hS, hspelled⟩
    induction hspelled with
    | nil => exact ⟨[], rfl, rfl⟩
    | cons hs hrest ih =>
        obtain ⟨d, rfl, rfl⟩ := exists_declaration (hS _ (by simp)) hs
        obtain ⟨ds, rfl, rfl⟩ := ih fun s hs => hS s (by simp [hs])
        exact ⟨d :: ds, rfl, rfl⟩

/-! ### Every layered tree has a spelling -/

/-- A token that stands for a value. -/
theorem exists_denoted (v : Value) : ∃ t : Terminal Kind.isLiteral, t.1.denoted = v := by
  cases v with
  | nil => exact ⟨⟨{ kind := .nilWord, lexeme := "nil", line := 1 }, rfl⟩, rfl⟩
  | boolean b =>
      cases b
      · exact ⟨⟨{ kind := .falseWord, lexeme := "false", line := 1 }, rfl⟩, rfl⟩
      · exact ⟨⟨{ kind := .trueWord, lexeme := "true", line := 1 }, rfl⟩, rfl⟩
  | number x =>
      exact ⟨⟨{ kind := .number, lexeme := "", literal := some (.number x), line := 1 }, rfl⟩, rfl⟩
  | string s =>
      exact ⟨⟨{ kind := .string, lexeme := "", literal := some (.string s), line := 1 }, rfl⟩, rfl⟩

/-- A token of a text of one line. -/
def word (k : Kind) (lexeme : String) : Token := { kind := k, lexeme := lexeme, line := 1 }

/-- A token of the given kind. -/
def terminal (k : Kind) : Terminal (· == k) := ⟨word k "", beq_self_eq_true k⟩

end Grammar

theorem Expr.Layered.exists_spelledBy {e : Expr} (h : e.Layered) : ∃ ts, e.SpelledBy ts := by
  induction e with
  | literal value =>
      obtain ⟨t, rfl⟩ := exists_denoted value
      exact ⟨_, .literal t⟩
  | group inner ih =>
      obtain ⟨ts, hinner⟩ := ih h
      exact ⟨_, .group (terminal .leftParen) (terminal .rightParen) hinner⟩
  | name token => exact ⟨_, .name token⟩
  | unary operator right ih =>
      obtain ⟨ts, hright⟩ := ih h.2.1
      exact ⟨_, .unary operator hright⟩
  | binary left operator right ihleft ihright =>
      obtain ⟨us, hleft⟩ := ihleft h.2.1
      obtain ⟨vs, hright⟩ := ihright h.2.2.1
      exact ⟨_, .binary operator hleft hright⟩
  | misplaced form body => exact h.elim

theorem Stmt.Layered.exists_spelledBy {s : Stmt} (h : s.Layered) : ∃ ts, s.SpelledBy ts := by
  obtain ⟨form, e⟩ := s
  obtain ⟨ts, he⟩ := h.expr.exists_spelledBy
  cases form with
  | expression => exact ⟨_, .expression (terminal .semicolon) he⟩
  | print => exact ⟨_, .print (terminal .printWord) (terminal .semicolon) he⟩
  | var name =>
      exact ⟨_, .var (terminal .varWord) name (terminal .equal) (terminal .semicolon) he⟩

theorem Stmt.exists_allSpelledBy {S : List Stmt} (h : ∀ s ∈ S, s.Layered) :
    ∃ ts, Stmt.AllSpelledBy S ts := by
  induction S with
  | nil => exact ⟨[], .nil⟩
  | cons s S ih =>
      obtain ⟨us, hs⟩ := (h s (by simp)).exists_spelledBy
      obtain ⟨vs, hS⟩ := ih fun s' hs' => h s' (by simp [hs'])
      exact ⟨us ++ vs, .cons hs hS⟩

end MiniLox
