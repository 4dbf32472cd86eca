import MiniLox.Grammar.Program

/-!
The grammar as a system of derivations, independent of how it is read.

    program     = declaration* end
    declaration = "var" NAME "=" expression ";" | "print" expression ";" | expression ";"
    equality    = comparison (("!=" | "==") comparison)*
    comparison  = term ((">" | ">=" | "<" | "<=") term)*
    term        = factor (("-" | "+") factor)*
    factor      = unary (("/" | "*") unary)*
    unary       = ("!" | "-") unary | primary
    primary     = NUMBER | STRING | "true" | "false" | "nil" | NAME | "(" expression ")"

A derivation is a value of `Phrase` or of `Declaration`. It knows the tokens
that it covers and the tree that it stands for; the operators of one tier
fold to the left. The grammar is unambiguous: the tokens determine the
derivation, and where a phrase ends is settled by the token after it.
-/

namespace MiniLox

/-- The kinds of the tokens that stand for a value. -/
def Kind.isLiteral (k : Kind) : Bool :=
  k == falseWord || k == trueWord || k == nilWord || k == number || k == string

/-- The kinds of the tokens that can stand anywhere in an expression. -/
def Kind.standsInExpression (k : Kind) : Bool :=
  k.isLiteral || k == identifier || k == leftParen || k == rightParen || k.isUnary
    || k.isEquality || k.isComparison || k.isAdditive || k.isMultiplicative

/-- The kinds of the tokens with which a declaration can begin. -/
def Kind.beginsDeclaration (k : Kind) : Bool :=
  k == varWord || k == printWord || k.standsInExpression

/-- The kinds of the tokens that can stand in a declaration behind the first
one and before the semicolon. -/
def Kind.standsInside (k : Kind) : Bool := k == equal || k.standsInExpression

/-- The value that a token stands for. -/
def Token.denoted (t : Token) : Value :=
  match t.kind with
  | .falseWord => .boolean false
  | .trueWord => .boolean true
  | .nilWord => .nil
  | _ => t.literal.getD .nil

namespace Grammar

/-- The tiers of binary operators, from the loosest to the tightest. -/
inductive Tier where
  | equality
  | comparison
  | term
  | factor
deriving DecidableEq, Repr

/-- The levels of expressions. -/
inductive Level where
  | binary (tier : Tier)
  | unary
  | primary
deriving DecidableEq, Repr

/-- The level of an expression on its own. -/
abbrev Level.expression : Level := .binary .equality

/-- The kinds of the operators of a tier. -/
def Tier.accepts : Tier → Kind → Bool
  | equality => Kind.isEquality
  | comparison => Kind.isComparison
  | term => Kind.isAdditive
  | factor => Kind.isMultiplicative

/-- The level of the operands of a tier. -/
def Tier.operand : Tier → Level
  | equality => .binary .comparison
  | comparison => .binary .term
  | term => .binary .factor
  | factor => .unary

/-- The kinds of the tokens with which a phrase of a level could go on. -/
def Level.continues : Level → Kind → Bool
  | binary .equality, k => k.isEquality || k.isComparison || k.isAdditive || k.isMultiplicative
  | binary .comparison, k => k.isComparison || k.isAdditive || k.isMultiplicative
  | binary .term, k => k.isAdditive || k.isMultiplicative
  | binary .factor, k => k.isMultiplicative
  | unary, _ => false
  | primary, _ => false

theorem Level.continues_binary (tier : Tier) (k : Kind) :
    (Level.binary tier).continues k = (tier.accepts k || tier.operand.continues k) := by
  cases tier <;> simp [Level.continues, Tier.accepts, Tier.operand, Bool.or_assoc]

/-- No operator belongs to two tiers. -/
theorem Tier.operand_continues_of_accepts {tier : Tier} {k : Kind} (h : tier.accepts k = true) :
    tier.operand.continues k = false := by
  cases tier <;> cases k <;> first | rfl | contradiction

/-- The tokens that follow do not carry on a phrase of the level. -/
def Level.EndsBefore (level : Level) (rest : List Token) : Prop :=
  ∀ t ∈ rest.head?, level.continues t.kind = false

theorem Level.EndsBefore.operand {tier : Tier} {rest : List Token}
    (h : (Level.binary tier).EndsBefore rest) : tier.operand.EndsBefore rest := by
  intro t ht
  have := h t ht
  rw [Level.continues_binary, Bool.or_eq_false_iff] at this
  exact this.2

theorem Level.EndsBefore.not_accepts {tier : Tier} {t : Token} {rest : List Token}
    (h : (Level.binary tier).EndsBefore (t :: rest)) : tier.accepts t.kind = false := by
  have := h t rfl
  rw [Level.continues_binary, Bool.or_eq_false_iff] at this
  exact this.1

theorem Level.endsBefore_cons {level : Level} {t : Token} {rest : List Token}
    (h : level.continues t.kind = false) : level.EndsBefore (t :: rest) := by
  intro u hu
  obtain rfl : t = u := by simpa using hu
  exact h

@[simp] theorem Level.unary_endsBefore (rest : List Token) : Level.unary.EndsBefore rest :=
  fun _ _ => rfl

@[simp] theorem Level.primary_endsBefore (rest : List Token) : Level.primary.EndsBefore rest :=
  fun _ _ => rfl

/-- A token of an accepted kind. -/
abbrev Terminal (accepts : Kind → Bool) : Type := { t : Token // accepts t.kind = true }

theorem Terminal.ne_of_not_accepts {accepts : Kind → Bool} {k : Kind} (s : Terminal accepts)
    (t : Terminal (· == k)) (h : accepts k = false) : s.1 ≠ t.1 := by
  intro hst
  have hs := s.2
  rw [hst, eq_of_beq t.2, h] at hs
  contradiction

theorem Level.endsBefore_terminal {level : Level} {k : Kind} (t : Terminal (· == k))
    (h : level.continues k = false) (rest : List Token) : level.EndsBefore (t.1 :: rest) :=
  Level.endsBefore_cons (by rw [eq_of_beq t.2, h])

/-! ### Derivations -/

mutual

/-- A derivation of an expression of some level. -/
inductive Phrase : Level → Type where
  | chain {tier : Tier} (first : Phrase tier.operand) (rest : Operations tier) :
      Phrase (.binary tier)
  | signed (sign : Terminal Kind.isUnary) (operand : Phrase .unary) : Phrase .unary
  | plain (operand : Phrase .primary) : Phrase .unary
  | literal (token : Terminal Kind.isLiteral) : Phrase .primary
  | name (token : Terminal (· == .identifier)) : Phrase .primary
  | group (opening : Terminal (· == .leftParen)) (inner : Phrase .expression)
      (closing : Terminal (· == .rightParen)) : Phrase .primary

/-- Any number of operators of a tier, each with the operand on its right. -/
inductive Operations : Tier → Type where
  | none {tier : Tier} : Operations tier
  | more {tier : Tier} (operator : Terminal tier.accepts) (right : Phrase tier.operand)
      (rest : Operations tier) : Operations tier

end

/-- A derivation of a declaration. -/
inductive Declaration where
  | var (keyword : Terminal (· == .varWord)) (name : Terminal (· == .identifier))
      (equal : Terminal (· == .equal)) (value : Phrase .expression)
      (semicolon : Terminal (· == .semicolon))
  | print (keyword : Terminal (· == .printWord)) (value : Phrase .expression)
      (semicolon : Terminal (· == .semicolon))
  | expression (value : Phrase .expression) (semicolon : Terminal (· == .semicolon))

mutual

/-- The tokens that a derivation covers, in their order. -/
def Phrase.tokens : {level : Level} → Phrase level → List Token
  | _, .chain first rest => first.tokens ++ rest.tokens
  | _, .signed sign operand => sign.1 :: operand.tokens
  | _, .plain operand => operand.tokens
  | _, .literal token => [token.1]
  | _, .name token => [token.1]
  | _, .group opening inner closing => opening.1 :: (inner.tokens ++ [closing.1])

def Operations.tokens : {tier : Tier} → Operations tier → List Token
  | _, .none => []
  | _, .more operator right rest => operator.1 :: (right.tokens ++ rest.tokens)

end

def Declaration.tokens : Declaration → List Token
  | var keyword name equal value semicolon =>
    keyword.1 :: name.1 :: equal.1 :: (value.tokens ++ [semicolon.1])
  | print keyword value semicolon => keyword.1 :: (value.tokens ++ [semicolon.1])
  | expression value semicolon => value.tokens ++ [semicolon.1]

mutual

/-- The tree that a derivation stands for. -/
def Phrase.tree : {level : Level} → Phrase level → Expr
  | _, .chain first rest => rest.appliedTo first.tree
  | _, .signed sign operand => .unary sign.1 operand.tree
  | _, .plain operand => operand.tree
  | _, .literal token => .literal token.1.denoted
  | _, .name token => .name token.1
  | _, .group _ inner _ => .group inner.tree

/-- What is on the left becomes the left operand of the first operator, and
the result that of the next. -/
def Operations.appliedTo : {tier : Tier} → Operations tier → (left : Expr) → Expr
  | _, .none, left => left
  | _, .more operator right rest, left => rest.appliedTo (.binary left operator.1 right.tree)

end

def Declaration.stmt : Declaration → Stmt
  | var _ name _ value _ => { form := .var name.1, expr := value.tree }
  | print _ value _ => { form := .print, expr := value.tree }
  | expression value _ => { form := .expression, expr := value.tree }

/-- The tokens are those of declarations one after the other, and the
statements are what these stand for. -/
def Derives (ts : List Token) (S : List Stmt) : Prop :=
  ∃ ds : List Declaration, ds.flatMap Declaration.tokens = ts ∧ ds.map Declaration.stmt = S

/-- A declaration can begin with the tokens. -/
def Viable (u : List Token) : Prop := ∃ d : Declaration, u <+: d.tokens

section Tokens

variable {tier : Tier}

@[simp] theorem Phrase.tokens_chain (first : Phrase tier.operand) (rest : Operations tier) :
    (Phrase.chain first rest).tokens = first.tokens ++ rest.tokens := rfl

@[simp] theorem Phrase.tokens_signed (sign : Terminal Kind.isUnary) (operand : Phrase .unary) :
    (Phrase.signed sign operand).tokens = sign.1 :: operand.tokens := rfl

@[simp] theorem Phrase.tokens_plain (operand : Phrase .primary) :
    (Phrase.plain operand).tokens = operand.tokens := rfl

@[simp] theorem Phrase.tokens_literal (token : Terminal Kind.isLiteral) :
    (Phrase.literal token).tokens = [token.1] := rfl

@[simp] theorem Phrase.tokens_name (token : Terminal (· == .identifier)) :
    (Phrase.name token).tokens = [token.1] := rfl

@[simp] theorem Phrase.tokens_group (opening : Terminal (· == .leftParen))
    (inner : Phrase .expression) (closing : Terminal (· == .rightParen)) :
    (Phrase.group opening inner closing).tokens =
      opening.1 :: (inner.tokens ++ [closing.1]) := rfl

@[simp] theorem Operations.tokens_none : (Operations.none : Operations tier).tokens = [] := rfl

@[simp] theorem Operations.tokens_more (operator : Terminal tier.accepts)
    (right : Phrase tier.operand) (rest : Operations tier) :
    (Operations.more operator right rest).tokens =
      operator.1 :: (right.tokens ++ rest.tokens) := rfl

end Tokens

/-! ### The tokens of a derivation -/

theorem Kind.standsInExpression_of_accepts {tier : Tier} {k : Kind} (h : tier.accepts k = true) :
    k.standsInExpression = true := by
  cases tier <;> simp_all [Tier.accepts, Kind.standsInExpression]

mutual

theorem Phrase.kind_of_mem :
    ∀ {level : Level} (p : Phrase level), ∀ t ∈ p.tokens, t.kind.standsInExpression = true
  | _, .chain first rest, t, ht => by
      rcases List.mem_append.mp ht with ht | ht
      · exact first.kind_of_mem t ht
      · exact rest.kind_of_mem t ht
  | _, .signed sign operand, t, ht => by
      rcases List.mem_cons.mp ht with rfl | ht
      · simp [Kind.standsInExpression, sign.2]
      · exact operand.kind_of_mem t ht
  | _, .plain operand, t, ht => operand.kind_of_mem t ht
  | _, .literal token, t, ht => by
      obtain rfl : t = token.1 := by simpa using ht
      simp [Kind.standsInExpression, token.2]
  | _, .name token, t, ht => by
      obtain rfl : t = token.1 := by simpa using ht
      simp [Kind.standsInExpression, token.2]
  | _, .group opening inner closing, t, ht => by
      simp only [Phrase.tokens_group, List.mem_cons, List.mem_append, List.not_mem_nil,
        or_false] at ht
      rcases ht with rfl | ht | rfl
      · simp [Kind.standsInExpression, opening.2]
      · exact inner.kind_of_mem t ht
      · simp [Kind.standsInExpression, closing.2]

theorem Operations.kind_of_mem :
    ∀ {tier : Tier} (o : Operations tier), ∀ t ∈ o.tokens, t.kind.standsInExpression = true
  | _, .none, t, ht => by simp at ht
  | _, .more operator right rest, t, ht => by
      simp only [Operations.tokens_more, List.mem_cons, List.mem_append] at ht
      rcases ht with rfl | ht | ht
      · exact Kind.standsInExpression_of_accepts operator.2
      · exact right.kind_of_mem t ht
      · exact rest.kind_of_mem t ht

end

theorem Phrase.exists_tokens_eq_cons :
    ∀ {level : Level} (p : Phrase level), ∃ t ts, p.tokens = t :: ts
  | _, .chain first rest => by
      obtain ⟨t, ts, h⟩ := first.exists_tokens_eq_cons
      exact ⟨t, ts ++ rest.tokens, by simp [h]⟩
  | _, .signed sign operand => ⟨_, _, rfl⟩
  | _, .plain operand => operand.exists_tokens_eq_cons
  | _, .literal token => ⟨_, _, rfl⟩
  | _, .name token => ⟨_, _, rfl⟩
  | _, .group opening inner closing => ⟨_, _, rfl⟩

/-- What follows an operand of a tier is an operator of the tier or what
follows the phrase. -/
theorem Operations.operand_endsBefore {tier : Tier} (o : Operations tier) {rest : List Token}
    (h : (Level.binary tier).EndsBefore rest) :
    tier.operand.EndsBefore (o.tokens ++ rest) := by
  cases o with
  | none => exact h.operand
  | more operator right o =>
      exact Level.endsBefore_cons (Tier.operand_continues_of_accepts operator.2)

theorem Declaration.exists_tokens_eq_cons (d : Declaration) : ∃ t ts, d.tokens = t :: ts := by
  cases d with
  | var keyword name equal value semicolon => exact ⟨_, _, rfl⟩
  | print keyword value semicolon => exact ⟨_, _, rfl⟩
  | expression value semicolon =>
      obtain ⟨t, ts, h⟩ := value.exists_tokens_eq_cons
      exact ⟨t, ts ++ [semicolon.1], by simp [Declaration.tokens, h]⟩

theorem Declaration.tokens_ne_nil (d : Declaration) : d.tokens ≠ [] := by
  obtain ⟨t, ts, h⟩ := d.exists_tokens_eq_cons
  rw [h]
  exact List.cons_ne_nil t ts

/-- A declaration has its only semicolon at its end, and what makes it a
declaration of a variable or a print statement at its beginning. -/
theorem Declaration.exists_tokens_eq (d : Declaration) :
    ∃ (first : Token) (inside : List Token) (semicolon : Token),
      d.tokens = first :: (inside ++ [semicolon]) ∧ semicolon.kind = .semicolon ∧
        first.kind.beginsDeclaration = true ∧ ∀ t ∈ inside, t.kind.standsInside = true := by
  have hphrase : ∀ p : Phrase .expression, ∀ t ∈ p.tokens, t.kind.standsInside = true := by
    intro p t ht
    rw [Kind.standsInside, p.kind_of_mem t ht, Bool.or_true]
  cases d with
  | var keyword name equal value semicolon =>
      refine ⟨keyword.1, name.1 :: equal.1 :: value.tokens, semicolon.1, rfl,
        eq_of_beq semicolon.2, ?_, ?_⟩
      · rw [eq_of_beq keyword.2]
        rfl
      · intro t ht
        simp only [List.mem_cons] at ht
        rcases ht with rfl | rfl | ht
        · rw [eq_of_beq name.2]
          rfl
        · rw [eq_of_beq equal.2]
          rfl
        · exact hphrase value t ht
  | print keyword value semicolon =>
      refine ⟨keyword.1, value.tokens, semicolon.1, rfl, eq_of_beq semicolon.2, ?_,
        hphrase value⟩
      rw [eq_of_beq keyword.2]
      rfl
  | expression value semicolon =>
      obtain ⟨first, inside, hvalue⟩ := value.exists_tokens_eq_cons
      have hfirst : first.kind.standsInExpression = true :=
        value.kind_of_mem first (by simp [hvalue])
      refine ⟨first, inside, semicolon.1, ?_, eq_of_beq semicolon.2, ?_, fun t ht => ?_⟩
      · rw [Declaration.tokens, hvalue]
        rfl
      · rw [Kind.beginsDeclaration, hfirst, Bool.or_true]
      · exact hphrase value t (by simp [hvalue, ht])

/-! ### Unambiguity -/

theorem Kind.isUnary_of_isLiteral {k : Kind} (h : k.isLiteral = true) : k.isUnary = false := by
  cases k <;> first | rfl | contradiction

/-- An operand without a sign does not begin like one with a sign. -/
theorem Phrase.isUnary_head (p : Phrase .primary) {t : Token} {ts : List Token}
    (h : p.tokens = t :: ts) : t.kind.isUnary = false := by
  cases p with
  | literal token =>
      obtain ⟨rfl, -⟩ : token.1 = t ∧ [] = ts := by simpa using h
      exact Kind.isUnary_of_isLiteral token.2
  | name token =>
      obtain ⟨rfl, -⟩ : token.1 = t ∧ [] = ts := by simpa using h
      rw [eq_of_beq token.2]
      rfl
  | group opening inner closing =>
      obtain ⟨rfl, -⟩ := List.cons.inj h
      rw [eq_of_beq opening.2]
      rfl

mutual

/-- Two phrases of a level with which the same text begins are one phrase, if
each is followed by a token that cannot carry it on. -/
theorem Phrase.eq_of_tokens_append : ∀ {level : Level} (p q : Phrase level) {u v : List Token},
    p.tokens ++ u = q.tokens ++ v → level.EndsBefore u → level.EndsBefore v → p = q ∧ u = v
  | _, .chain first rest, .chain first' rest', u, v, h, hu, hv => by
      simp only [Phrase.tokens_chain, List.append_assoc] at h
      -- An operator of the tier cannot carry on one of its operands.
      obtain ⟨rfl, hrest⟩ := first.eq_of_tokens_append first' h (rest.operand_endsBefore hu)
        (rest'.operand_endsBefore hv)
      obtain ⟨rfl, rfl⟩ := rest.eq_of_tokens_append rest' hrest hu hv
      exact ⟨rfl, rfl⟩
  | _, .signed sign operand, .signed sign' operand', u, v, h, _, _ => by
      obtain ⟨hsign, hoperand⟩ := List.cons.inj h
      obtain rfl := Subtype.ext hsign
      obtain ⟨rfl, rfl⟩ := operand.eq_of_tokens_append operand' hoperand (by simp) (by simp)
      exact ⟨rfl, rfl⟩
  | _, .signed sign operand, .plain q, u, v, h, _, _ => by
      obtain ⟨t, ts, hq⟩ := q.exists_tokens_eq_cons
      have hsign := sign.2
      simp only [Phrase.tokens_signed, Phrase.tokens_plain, hq, List.cons_append,
        List.cons.injEq] at h
      rw [h.1, q.isUnary_head hq] at hsign
      contradiction
  | _, .plain p, .signed sign operand, u, v, h, _, _ => by
      obtain ⟨t, ts, hp⟩ := p.exists_tokens_eq_cons
      have hsign := sign.2
      simp only [Phrase.tokens_signed, Phrase.tokens_plain, hp, List.cons_append,
        List.cons.injEq] at h
      rw [← h.1, p.isUnary_head hp] at hsign
      contradiction
  | _, .plain p, .plain q, u, v, h, _, _ => by
      obtain ⟨rfl, rfl⟩ := p.eq_of_tokens_append q h (by simp) (by simp)
      exact ⟨rfl, rfl⟩
  | _, .literal token, .literal token', u, v, h, _, _ => by
      obtain ⟨ht, rfl⟩ := List.cons.inj h
      obtain rfl := Subtype.ext ht
      exact ⟨rfl, rfl⟩
  | _, .name token, .name token', u, v, h, _, _ => by
      obtain ⟨ht, rfl⟩ := List.cons.inj h
      obtain rfl := Subtype.ext ht
      exact ⟨rfl, rfl⟩
  | _, .group opening inner closing, .group opening' inner' closing', u, v, h, _, _ => by
      simp only [Phrase.tokens_group, List.cons_append, List.append_assoc, List.nil_append,
        List.cons.injEq] at h
      obtain ⟨hopening, hinner⟩ := h
      obtain rfl := Subtype.ext hopening
      obtain ⟨rfl, hrest⟩ := inner.eq_of_tokens_append inner' hinner
        (Level.endsBefore_terminal closing rfl u) (Level.endsBefore_terminal closing' rfl v)
      obtain ⟨hclosing, rfl⟩ := List.cons.inj hrest
      obtain rfl := Subtype.ext hclosing
      exact ⟨rfl, rfl⟩
  -- The first token tells the three kinds of primary expressions apart.
  | _, .literal token, .name token', u, v, h, _, _ =>
      absurd (List.cons.inj h).1 (token.ne_of_not_accepts token' rfl)
  | _, .literal token, .group opening inner closing, u, v, h, _, _ =>
      absurd (List.cons.inj h).1 (token.ne_of_not_accepts opening rfl)
  | _, .name token, .literal token', u, v, h, _, _ =>
      absurd (List.cons.inj h).1.symm (token'.ne_of_not_accepts token rfl)
  | _, .name token, .group opening inner closing, u, v, h, _, _ =>
      absurd (List.cons.inj h).1 (token.ne_of_not_accepts opening rfl)
  | _, .group opening inner closing, .literal token, u, v, h, _, _ =>
      absurd (List.cons.inj h).1.symm (token.ne_of_not_accepts opening rfl)
  | _, .group opening inner closing, .name token, u, v, h, _, _ =>
      absurd (List.cons.inj h).1.symm (token.ne_of_not_accepts opening rfl)

theorem Operations.eq_of_tokens_append : ∀ {tier : Tier} (o o' : Operations tier)
    {u v : List Token}, o.tokens ++ u = o'.tokens ++ v → (Level.binary tier).EndsBefore u →
      (Level.binary tier).EndsBefore v → o = o' ∧ u = v
  | _, .none, .none, u, v, h, _, _ => ⟨rfl, h⟩
  | _, .none, .more operator right rest, u, v, h, hu, _ => by
      obtain rfl : u = operator.1 :: (right.tokens ++ rest.tokens ++ v) := by simpa using h
      exact absurd operator.2 (by simp [hu.not_accepts])
  | _, .more operator right rest, .none, u, v, h, _, hv => by
      obtain rfl : operator.1 :: (right.tokens ++ rest.tokens ++ u) = v := by simpa using h
      exact absurd operator.2 (by simp [hv.not_accepts])
  | _, .more operator right rest, .more operator' right' rest', u, v, h, hu, hv => by
      simp only [Operations.tokens_more, List.cons_append, List.append_assoc,
        List.cons.injEq] at h
      obtain ⟨hoperator, hright⟩ := h
      obtain rfl := Subtype.ext hoperator
      obtain ⟨rfl, hrest⟩ := right.eq_of_tokens_append right' hright (rest.operand_endsBefore hu)
        (rest'.operand_endsBefore hv)
      obtain ⟨rfl, rfl⟩ := rest.eq_of_tokens_append rest' hrest hu hv
      exact ⟨rfl, rfl⟩

end

/-- A phrase does not begin with a token that cannot stand in it. -/
theorem Phrase.append_ne_cons {level : Level} (p : Phrase level) {k : Kind}
    (t : Terminal (· == k)) (hk : k.standsInExpression = false) (u v : List Token) :
    p.tokens ++ u ≠ t.1 :: v := by
  obtain ⟨first, ts, hp⟩ := p.exists_tokens_eq_cons
  rw [hp]
  intro h
  obtain ⟨rfl, -⟩ := List.cons.inj h
  have ht := p.kind_of_mem t.1 (by simp [hp])
  rw [eq_of_beq t.2, hk] at ht
  contradiction

/-- A phrase and the semicolon after it are settled by their tokens. -/
theorem Phrase.eq_of_tokens_append_semicolon (p q : Phrase .expression)
    (semicolon semicolon' : Terminal (· == .semicolon)) {u v : List Token}
    (h : p.tokens ++ [semicolon.1] ++ u = q.tokens ++ [semicolon'.1] ++ v) :
    p = q ∧ semicolon = semicolon' ∧ u = v := by
  simp only [List.append_assoc, List.cons_append, List.nil_append] at h
  obtain ⟨rfl, hrest⟩ := p.eq_of_tokens_append q h (Level.endsBefore_terminal semicolon rfl u)
    (Level.endsBefore_terminal semicolon' rfl v)
  obtain ⟨hsemicolon, rfl⟩ := List.cons.inj hrest
  exact ⟨rfl, Subtype.ext hsemicolon, rfl⟩

/-- Two declarations with which the same text begins are one declaration:
the semicolon shows where it ends. -/
theorem Declaration.eq_of_tokens_append (d e : Declaration) {u v : List Token}
    (h : d.tokens ++ u = e.tokens ++ v) : d = e ∧ u = v := by
  cases d with
  | var keyword name equal value semicolon =>
      cases e with
      | var keyword' name' equal' value' semicolon' =>
          simp only [Declaration.tokens, List.cons_append, List.cons.injEq] at h
          obtain ⟨hkeyword, hname, hequal, hvalue⟩ := h
          obtain rfl := Subtype.ext hkeyword
          obtain rfl := Subtype.ext hname
          obtain rfl := Subtype.ext hequal
          obtain ⟨rfl, rfl, rfl⟩ := value.eq_of_tokens_append_semicolon value' _ _ hvalue
          exact ⟨rfl, rfl⟩
      | print keyword' value' semicolon' =>
          exact absurd (List.cons.inj h).1 (keyword.ne_of_not_accepts keyword' rfl)
      | expression value' semicolon' =>
          simp only [Declaration.tokens, List.append_assoc] at h
          exact absurd h.symm (value'.append_ne_cons keyword rfl _ _)
  | print keyword value semicolon =>
      cases e with
      | var keyword' name' equal' value' semicolon' =>
          exact absurd (List.cons.inj h).1 (keyword.ne_of_not_accepts keyword' rfl)
      | print keyword' value' semicolon' =>
          simp only [Declaration.tokens, List.cons_append, List.cons.injEq] at h
          obtain ⟨hkeyword, hvalue⟩ := h
          obtain rfl := Subtype.ext hkeyword
          obtain ⟨rfl, rfl, rfl⟩ := value.eq_of_tokens_append_semicolon value' _ _ hvalue
          exact ⟨rfl, rfl⟩
      | expression value' semicolon' =>
          simp only [Declaration.tokens, List.append_assoc] at h
          exact absurd h.symm (value'.append_ne_cons keyword rfl _ _)
  | expression value semicolon =>
      cases e with
      | var keyword' name' equal' value' semicolon' =>
          simp only [Declaration.tokens, List.append_assoc] at h
          exact absurd h (value.append_ne_cons keyword' rfl _ _)
      | print keyword' value' semicolon' =>
          simp only [Declaration.tokens, List.append_assoc] at h
          exact absurd h (value.append_ne_cons keyword' rfl _ _)
      | expression value' semicolon' =>
          obtain ⟨rfl, rfl, rfl⟩ := value.eq_of_tokens_append_semicolon value' _ _ h
          exact ⟨rfl, rfl⟩

/-- Tokens fall into declarations in one way at most. -/
theorem Declaration.eq_of_flatMap_tokens {ds es : List Declaration}
    (h : ds.flatMap Declaration.tokens = es.flatMap Declaration.tokens) : ds = es := by
  induction ds generalizing es with
  | nil =>
      cases es with
      | nil => rfl
      | cons e es =>
          obtain ⟨t, ts, he⟩ := e.exists_tokens_eq_cons
          simp [he] at h
  | cons d ds ih =>
      cases es with
      | nil =>
          obtain ⟨t, ts, hd⟩ := d.exists_tokens_eq_cons
          simp [hd] at h
      | cons e es =>
          simp only [List.flatMap_cons] at h
          obtain ⟨rfl, hrest⟩ := d.eq_of_tokens_append e h
          rw [ih hrest]

end Grammar

end MiniLox
