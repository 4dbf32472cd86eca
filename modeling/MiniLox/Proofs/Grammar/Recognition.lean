import MiniLox.Proofs.Grammar.Layered
import MiniLox.Proofs.Grammar.Locality

/-!
The rules read the derivations of the grammar. Three things are said of a
rule and a level. What the rule reads has a derivation. What has a derivation
is read, if the token after it cannot carry it on and it is not nested too
deeply. And where the rule fails, what it has passed over is the beginning of
some phrase of the level: a mistake is noticed at the first token that cannot
be right.
-/

namespace MiniLox.Grammar

open Rule

/-- A rule reads the phrases of a level. -/
structure Reads (r : Rule Expr) (level : Level) : Prop where
  sound : ∀ {ts rest : List Token} {e : Expr}, r.read ts = .ok (e, rest) →
    ∃ p : Phrase level, p.tokens ++ rest = ts ∧ p.tree = e
  complete : ∀ (p : Phrase level) {rest : List Token}, level.EndsBefore rest →
    r.read (p.tokens ++ rest) = .ok (p.tree, rest) ∨
      r.read (p.tokens ++ rest) = .error .tooDeep
  viable : ∀ {ts rest : List Token} {x : Expectation}, r.read ts = .error (.mismatch rest x) →
    ∃ (u : List Token) (p : Phrase level), u ++ rest = ts ∧ u <+: p.tokens

theorem Level.nonempty_phrase (level : Level) : Nonempty (Phrase level) := by
  have hnil : Kind.nilWord.isLiteral = true := rfl
  let token : Terminal Kind.isLiteral := ⟨{ kind := .nilWord, lexeme := "nil", line := 1 }, hnil⟩
  obtain ⟨p, -, -⟩ := (Phrase.literal token).exists_looser level.le_primary
  exact ⟨p⟩

/-! ### Chains -/

section Chain

variable {tier : Tier} {operand : Rule Expr}

theorem chainRest_sound (h : Reads operand tier.operand) {left e : Expr} {ts rest : List Token}
    (hread : chainRest tier.accepts operand left ts = .ok (e, rest)) :
    ∃ o : Operations tier, o.tokens ++ rest = ts ∧ o.appliedTo left = e := by
  fun_induction chainRest tier.accepts operand left ts with
  | case1 left =>
      cases hread
      exact ⟨.none, rfl, rfl⟩
  | case2 left t ts ht right mid hright ih =>
      obtain ⟨p, rfl, rfl⟩ := h.sound hright
      obtain ⟨o, rfl, rfl⟩ := ih hread
      exact ⟨.more ⟨t, ht⟩ p o, by simp, rfl⟩
  | case3 => contradiction
  | case4 left t ts _ =>
      cases hread
      exact ⟨.none, rfl, rfl⟩

theorem chainRest_complete (h : Reads operand tier.operand) (o : Operations tier) {left : Expr}
    {rest : List Token} (hrest : (Level.binary tier).EndsBefore rest) :
    chainRest tier.accepts operand left (o.tokens ++ rest) = .ok (o.appliedTo left, rest) ∨
      chainRest tier.accepts operand left (o.tokens ++ rest) = .error .tooDeep := by
  match o with
  | .none =>
      left
      cases rest with
      | nil =>
          rw [Operations.tokens_none, List.nil_append, chainRest]
          rfl
      | cons t ts => exact chainRest_stop hrest.not_accepts
  | .more operator right o =>
      rw [Operations.tokens_more, List.cons_append, List.append_assoc]
      rcases h.complete right (o.operand_endsBefore hrest) with hright | hright
      · rw [chainRest_step operator.2 hright]
        exact chainRest_complete h o hrest
      · right
        exact chainRest_error operator.2 hright

theorem chainRest_viable (h : Reads operand tier.operand) {left : Expr} {ts rest : List Token}
    {x : Expectation}
    (hread : chainRest tier.accepts operand left ts = .error (.mismatch rest x)) :
    ∃ (u : List Token) (o : Operations tier), u ++ rest = ts ∧ u <+: o.tokens := by
  fun_induction chainRest tier.accepts operand left ts with
  | case1 => contradiction
  | case2 left t ts ht right mid hright ih =>
      obtain ⟨p, rfl, rfl⟩ := h.sound hright
      obtain ⟨u, o, rfl, hu⟩ := ih hread
      refine ⟨t :: (p.tokens ++ u), .more ⟨t, ht⟩ p o, by simp, ?_⟩
      simpa using hu
  | case3 left t ts ht e hright =>
      cases hread
      obtain ⟨u, p, rfl, hu⟩ := h.viable hright
      refine ⟨t :: u, .more ⟨t, ht⟩ p .none, rfl, ?_⟩
      simpa using hu
  | case4 => contradiction

/-- A chain over a rule for the operands of a tier reads the tier. -/
theorem Reads.chain (h : Reads operand tier.operand) :
    Reads (chain tier.accepts operand) (.binary tier) where
  sound hread := by
    obtain ⟨left, mid, hleft, hrest⟩ := chain_eq_ok.mp hread
    obtain ⟨p, rfl, rfl⟩ := h.sound hleft
    obtain ⟨o, rfl, rfl⟩ := chainRest_sound h hrest
    exact ⟨.chain p o, by simp, rfl⟩
  complete p rest hrest := by
    match p with
    | .chain first o =>
        rw [Phrase.tokens_chain, List.append_assoc]
        rcases h.complete first (o.operand_endsBefore hrest) with hfirst | hfirst
        · rcases chainRest_complete h o hrest with ho | ho
          · exact .inl (chain_eq_ok.mpr ⟨_, _, hfirst, ho⟩)
          · exact .inr (chain_eq_error.mpr (.inr ⟨_, _, hfirst, ho⟩))
        · exact .inr (chain_eq_error.mpr (.inl hfirst))
  viable hread := by
    rcases chain_eq_error.mp hread with hleft | ⟨left, mid, hleft, hrest⟩
    · obtain ⟨u, p, rfl, hu⟩ := h.viable hleft
      refine ⟨u, .chain p .none, rfl, ?_⟩
      simpa using hu
    · obtain ⟨p, rfl, rfl⟩ := h.sound hleft
      obtain ⟨u, o, rfl, hu⟩ := chainRest_viable h hrest
      refine ⟨p.tokens ++ u, .chain p o, by simp, ?_⟩
      simpa using hu

end Chain

theorem binaryOver_reads {r : Rule Expr} (h : Reads r .unary) :
    Reads (binaryOver r) .expression := by
  have hfactor : Reads (chain Tier.factor.accepts r) (.binary .factor) := .chain h
  have hterm : Reads (chain Tier.term.accepts _) (.binary .term) := .chain hfactor
  have hcomparison : Reads (chain Tier.comparison.accepts _) (.binary .comparison) := .chain hterm
  have hequality : Reads (chain Tier.equality.accepts _) (.binary .equality) := .chain hcomparison
  exact hequality

/-! ### Operands -/

section Operands

variable {r : Rule Expr}

theorem grouped_sound (h : Reads r .expression) {ts rest : List Token} {e : Expr}
    (hread : (grouped r).read ts = .ok (e, rest)) :
    ∃ (opening : Terminal (· == .leftParen)) (p : Phrase .expression)
      (closing : Terminal (· == .rightParen)),
      (Phrase.group opening p closing).tokens ++ rest = ts ∧ .group p.tree = e := by
  simp only [grouped, kind, andThen_eq_ok, map_eq_ok, token_eq_ok] at hread
  obtain ⟨opening, _, ⟨rfl, hopening⟩, inner, _, hinner, closing, ⟨rfl, hclosing⟩, rfl⟩ := hread
  obtain ⟨p, rfl, rfl⟩ := h.sound hinner
  exact ⟨⟨opening, hopening⟩, p, ⟨closing, hclosing⟩, by simp, rfl⟩

theorem grouped_complete (h : Reads r .expression) (opening : Terminal (· == .leftParen))
    (p : Phrase .expression) (closing : Terminal (· == .rightParen)) (rest : List Token) :
    (grouped r).read ((Phrase.group opening p closing).tokens ++ rest) =
        .ok (.group p.tree, rest) ∨
      (grouped r).read ((Phrase.group opening p closing).tokens ++ rest) = .error .tooDeep := by
  have hopening : (kind .leftParen .expression).read
      ((Phrase.group opening p closing).tokens ++ rest) =
        .ok (opening.1, p.tokens ++ closing.1 :: rest) :=
    token_eq_ok.mpr ⟨by simp, opening.2⟩
  have hclosing : (kind .rightParen .closingParen).read (closing.1 :: rest) =
      .ok (closing.1, rest) :=
    token_eq_ok.mpr ⟨rfl, closing.2⟩
  have hends : Level.expression.EndsBefore (closing.1 :: rest) :=
    Level.endsBefore_terminal closing rfl rest
  rcases h.complete p hends with hp | hp
  · left
    exact andThen_eq_ok.mpr ⟨_, _, hopening, andThen_eq_ok.mpr
      ⟨_, _, hp, map_eq_ok.mpr ⟨_, hclosing, rfl⟩⟩⟩
  · right
    exact andThen_eq_error.mpr (.inr ⟨_, _, hopening, andThen_eq_error.mpr (.inl hp)⟩)

theorem grouped_viable (h : Reads r .expression) {ts rest : List Token} {x : Expectation}
    (hread : (grouped r).read ts = .error (.mismatch rest x)) :
    ∃ (u : List Token) (p : Phrase .primary), u ++ rest = ts ∧ u <+: p.tokens := by
  simp only [grouped, kind, andThen_eq_error, map_eq_error, token_eq_ok, token_eq_error] at hread
  rcases hread with ⟨hrest, -⟩ | ⟨opening, mid, ⟨rfl, hopening⟩, hinner | hclosing⟩
  · obtain ⟨p⟩ := Level.nonempty_phrase .primary
    obtain ⟨rfl, -⟩ := Failure.mismatch.inj hrest
    exact ⟨[], p, rfl, List.nil_prefix⟩
  · obtain ⟨u, p, rfl, hu⟩ := h.viable hinner
    refine ⟨opening :: u, .group ⟨opening, hopening⟩ p (terminal .rightParen), rfl, ?_⟩
    rw [Phrase.tokens_group, List.cons_prefix_cons]
    exact ⟨rfl, hu.trans (List.prefix_append _ _)⟩
  · obtain ⟨e, after, hinner, hrest, -⟩ := hclosing
    obtain ⟨rfl, -⟩ := Failure.mismatch.inj hrest
    obtain ⟨p, rfl, -⟩ := h.sound hinner
    refine ⟨opening :: p.tokens, .group ⟨opening, hopening⟩ p (terminal .rightParen), rfl, ?_⟩
    rw [Phrase.tokens_group, List.cons_prefix_cons]
    exact ⟨rfl, List.prefix_append _ _⟩

/-- What is read depends on the kind of the first token. -/
theorem primaryOver_read_cons (t : Token) (ts : List Token) :
    (primaryOver r).read (t :: ts) =
      if t.kind.isLiteral then .ok (.literal t.denoted, ts)
      else if t.kind = .identifier then .ok (.name t, ts)
      else if t.kind = .leftParen then (grouped r).read (t :: ts)
      else .error (.mismatch (t :: ts) .expression) := by
  rw [primaryOver, byHead_read]
  cases hk : t.kind <;>
    simp [Kind.isLiteral, Token.denoted, literal, kind, token, map, Rule.none, hk]

theorem primaryOver_reads (h : Reads r .expression) : Reads (primaryOver r) .primary where
  sound {ts rest e} hread := by
    cases ts with
    | nil => contradiction
    | cons t ts =>
        rw [primaryOver_read_cons] at hread
        split at hread
        · next hk =>
          cases hread
          exact ⟨.literal ⟨t, hk⟩, rfl, rfl⟩
        · split at hread
          · next hk =>
            cases hread
            exact ⟨.name ⟨t, beq_iff_eq.mpr hk⟩, rfl, rfl⟩
          · split at hread
            · obtain ⟨opening, p, closing, htokens, htree⟩ := grouped_sound h hread
              exact ⟨.group opening p closing, htokens, htree⟩
            · contradiction
  complete p rest _ := by
    cases p with
    | literal token =>
        left
        rw [Phrase.tokens_literal, List.singleton_append, primaryOver_read_cons, if_pos token.2]
        rfl
    | name token =>
        left
        have hk := eq_of_beq token.2
        rw [Phrase.tokens_name, List.singleton_append, primaryOver_read_cons, hk]
        rfl
    | group opening inner closing =>
        have hk := eq_of_beq opening.2
        have hread := grouped_complete h opening inner closing rest
        rw [Phrase.tokens_group, List.cons_append] at hread ⊢
        rw [primaryOver_read_cons, hk]
        exact hread
  viable {ts rest x} hread := by
    obtain ⟨p⟩ := Level.nonempty_phrase .primary
    cases ts with
    | nil =>
        cases hread
        exact ⟨[], p, rfl, List.nil_prefix⟩
    | cons t ts =>
        rw [primaryOver_read_cons] at hread
        split at hread
        · contradiction
        · split at hread
          · contradiction
          · split at hread
            · exact grouped_viable h hread
            · cases hread
              exact ⟨[], p, rfl, List.nil_prefix⟩

theorem signed_sound (h : Reads r .unary) {ts rest : List Token} {e : Expr}
    (hread : (signed r).read ts = .ok (e, rest)) :
    ∃ p : Phrase .unary, p.tokens ++ rest = ts ∧ p.tree = e := by
  obtain ⟨sign, mid, hsign, hsigned⟩ := andThen_eq_ok.mp hread
  obtain ⟨rfl, hk⟩ := token_eq_ok.mp hsign
  obtain ⟨right, hright, rfl⟩ := map_eq_ok.mp hsigned
  obtain ⟨p, rfl, rfl⟩ := h.sound hright
  exact ⟨.signed ⟨sign, hk⟩ p, rfl, rfl⟩

theorem signed_complete (h : Reads r .unary) (sign : Terminal Kind.isUnary) (p : Phrase .unary)
    (rest : List Token) :
    (signed r).read ((Phrase.signed sign p).tokens ++ rest) = .ok (.unary sign.1 p.tree, rest) ∨
      (signed r).read ((Phrase.signed sign p).tokens ++ rest) = .error .tooDeep := by
  have hsign : (token Kind.isUnary .expression).read ((Phrase.signed sign p).tokens ++ rest) =
      .ok (sign.1, p.tokens ++ rest) :=
    token_eq_ok.mpr ⟨rfl, sign.2⟩
  rcases h.complete p (Level.unary_endsBefore rest) with hp | hp
  · left
    exact andThen_eq_ok.mpr ⟨_, _, hsign, map_eq_ok.mpr ⟨_, hp, rfl⟩⟩
  · right
    exact andThen_eq_error.mpr (.inr ⟨_, _, hsign, map_eq_error.mpr hp⟩)

theorem signed_viable (h : Reads r .unary) {ts rest : List Token} {x : Expectation}
    (hread : (signed r).read ts = .error (.mismatch rest x)) :
    ∃ (u : List Token) (p : Phrase .unary), u ++ rest = ts ∧ u <+: p.tokens := by
  rcases andThen_eq_error.mp hread with hsign | ⟨sign, mid, hsign, hright⟩
  · obtain ⟨p⟩ := Level.nonempty_phrase .unary
    obtain ⟨rfl, -⟩ := Failure.mismatch.inj (token_eq_error.mp hsign).1
    exact ⟨[], p, rfl, List.nil_prefix⟩
  · obtain ⟨rfl, hk⟩ := token_eq_ok.mp hsign
    obtain ⟨u, p, rfl, hu⟩ := h.viable (map_eq_error.mp hright)
    exact ⟨sign :: u, .signed ⟨sign, hk⟩ p, rfl, List.cons_prefix_cons.mpr ⟨rfl, hu⟩⟩

end Operands

/-- A sign is looked for first. -/
theorem unary_read_cons (levels : Nat) (t : Token) (ts : List Token) :
    (unary (levels + 1)).read (t :: ts) =
      if t.kind.isUnary then (signed (unary levels)).read (t :: ts)
      else (primaryOver (expression levels)).read (t :: ts) := by
  rw [unary, byHead_read]
  by_cases hk : t.kind.isUnary = true
  · rw [if_pos hk]
    simp [hk]
  · rw [if_neg hk]
    simp [hk, expression]

/-- Every level of nesting that is left reads one level of nesting more. -/
theorem unary_reads (levels : Nat) : Reads (unary levels) .unary := by
  induction levels with
  | zero =>
      exact {
        sound := fun hread => nomatch hread
        complete := fun _ {_} _ => .inr rfl
        viable := fun hread => nomatch hread }
  | succ levels ih =>
      have hprimary : Reads (primaryOver (expression levels)) .primary :=
        primaryOver_reads (binaryOver_reads ih)
      refine ⟨fun {ts rest e} hread => ?_, fun p {rest} _ => ?_, fun {ts rest x} hread => ?_⟩
      · cases ts with
        | nil => contradiction
        | cons t ts =>
            rw [unary_read_cons] at hread
            split at hread
            · exact signed_sound ih hread
            · obtain ⟨p, htokens, htree⟩ := hprimary.sound hread
              exact ⟨.plain p, htokens, htree⟩
      · cases p with
        | signed sign operand =>
            have hread := signed_complete ih sign operand rest
            rw [Phrase.tokens_signed, List.cons_append] at hread ⊢
            rw [unary_read_cons, if_pos sign.2]
            exact hread
        | plain operand =>
            have hread := hprimary.complete operand (Level.primary_endsBefore rest)
            obtain ⟨t, ts, htokens⟩ := operand.exists_tokens_eq_cons
            have hk : ¬t.kind.isUnary = true := by simp [operand.isUnary_head htokens]
            rw [Phrase.tokens_plain]
            rw [htokens, List.cons_append] at hread ⊢
            rw [unary_read_cons, if_neg hk]
            exact hread
      · cases ts with
        | nil =>
            obtain ⟨p⟩ := Level.nonempty_phrase .unary
            cases hread
            exact ⟨[], p, rfl, List.nil_prefix⟩
        | cons t ts =>
            rw [unary_read_cons] at hread
            split at hread
            · exact signed_viable ih hread
            · obtain ⟨u, p, htokens, hu⟩ := hprimary.viable hread
              exact ⟨u, .plain p, htokens, hu⟩

theorem expression_reads (levels : Nat) : Reads (expression levels) .expression :=
  binaryOver_reads (unary_reads levels)

/-! ### Statements -/

section Statements

variable {levels : Nat} {form : Form} {expected x : Expectation} {ts rest : List Token} {s : Stmt}

theorem closed_sound (hread : (closed levels form expected).read ts = .ok (s, rest)) :
    ∃ (p : Phrase .expression) (semicolon : Terminal (· == .semicolon)),
      p.tokens ++ semicolon.1 :: rest = ts ∧ { form := form, expr := p.tree } = s := by
  simp only [closed, kind, andThen_eq_ok, map_eq_ok, token_eq_ok] at hread
  obtain ⟨e, _, hvalue, semicolon, ⟨rfl, hsemicolon⟩, rfl⟩ := hread
  obtain ⟨p, rfl, rfl⟩ := (expression_reads levels).sound hvalue
  exact ⟨p, ⟨semicolon, hsemicolon⟩, rfl, rfl⟩

theorem closed_complete (levels : Nat) (form : Form) (expected : Expectation)
    (p : Phrase .expression) (semicolon : Terminal (· == .semicolon)) (rest : List Token) :
    (closed levels form expected).read (p.tokens ++ semicolon.1 :: rest) =
        .ok ({ form := form, expr := p.tree }, rest) ∨
      (closed levels form expected).read (p.tokens ++ semicolon.1 :: rest) = .error .tooDeep := by
  have hends : Level.expression.EndsBefore (semicolon.1 :: rest) :=
    Level.endsBefore_terminal semicolon rfl rest
  have hsemicolon : (kind .semicolon expected).read (semicolon.1 :: rest) =
      .ok (semicolon.1, rest) :=
    token_eq_ok.mpr ⟨rfl, semicolon.2⟩
  rcases (expression_reads levels).complete p hends with hp | hp
  · left
    exact andThen_eq_ok.mpr ⟨_, _, hp, map_eq_ok.mpr ⟨_, hsemicolon, rfl⟩⟩
  · right
    exact andThen_eq_error.mpr (.inl hp)

theorem closed_viable (hread : (closed levels form expected).read ts = .error (.mismatch rest x)) :
    ∃ (u : List Token) (p : Phrase .expression) (semicolon : Terminal (· == .semicolon)),
      u ++ rest = ts ∧ u <+: p.tokens ++ [semicolon.1] := by
  rcases andThen_eq_error.mp hread with hvalue | ⟨e, mid, hvalue, hsemicolon⟩
  · obtain ⟨u, p, rfl, hu⟩ := (expression_reads levels).viable hvalue
    exact ⟨u, p, terminal .semicolon, rfl, hu.trans (List.prefix_append _ _)⟩
  · obtain ⟨p, rfl, -⟩ := (expression_reads levels).sound hvalue
    obtain ⟨rfl, -⟩ := Failure.mismatch.inj (token_eq_error.mp (map_eq_error.mp hsemicolon)).1
    exact ⟨p.tokens, p, terminal .semicolon, rfl, List.prefix_append _ _⟩

theorem varDeclaration_sound (hread : (varDeclaration levels).read ts = .ok (s, rest)) :
    ∃ d : Declaration, d.tokens ++ rest = ts ∧ d.stmt = s := by
  simp only [varDeclaration, kind, andThen_eq_ok, token_eq_ok] at hread
  obtain ⟨keyword, _, ⟨rfl, hkeyword⟩, name, _, ⟨rfl, hname⟩, equal, _, ⟨rfl, hequal⟩, hvalue⟩ :=
    hread
  obtain ⟨p, semicolon, rfl, rfl⟩ := closed_sound hvalue
  exact ⟨.var ⟨keyword, hkeyword⟩ ⟨name, hname⟩ ⟨equal, hequal⟩ p semicolon,
    by simp [Declaration.tokens], rfl⟩

theorem varDeclaration_viable
    (hread : (varDeclaration levels).read ts = .error (.mismatch rest x)) :
    ∃ u, u ++ rest = ts ∧ Viable u := by
  obtain ⟨p⟩ := Level.nonempty_phrase .expression
  simp only [varDeclaration, kind, andThen_eq_error, token_eq_ok, token_eq_error] at hread
  rcases hread with ⟨he, -⟩ | ⟨keyword, _, ⟨rfl, hkeyword⟩, hread⟩
  · obtain ⟨rfl, -⟩ := Failure.mismatch.inj he
    exact ⟨[], rfl, .expression p (terminal .semicolon), List.nil_prefix⟩
  rcases hread with ⟨he, -⟩ | ⟨name, _, ⟨rfl, hname⟩, hread⟩
  · obtain ⟨rfl, -⟩ := Failure.mismatch.inj he
    refine ⟨[keyword], rfl, .var ⟨keyword, hkeyword⟩ (terminal .identifier) (terminal .equal) p
      (terminal .semicolon), ?_⟩
    simp [Declaration.tokens]
  rcases hread with ⟨he, -⟩ | ⟨equal, _, ⟨rfl, hequal⟩, hread⟩
  · obtain ⟨rfl, -⟩ := Failure.mismatch.inj he
    refine ⟨[keyword, name], rfl, .var ⟨keyword, hkeyword⟩ ⟨name, hname⟩ (terminal .equal) p
      (terminal .semicolon), ?_⟩
    simp [Declaration.tokens]
  · obtain ⟨u, q, semicolon, rfl, hu⟩ := closed_viable hread
    refine ⟨keyword :: name :: equal :: u, rfl, .var ⟨keyword, hkeyword⟩ ⟨name, hname⟩
      ⟨equal, hequal⟩ q semicolon, ?_⟩
    simpa [Declaration.tokens] using hu

theorem printStatement_sound (hread : (printStatement levels).read ts = .ok (s, rest)) :
    ∃ d : Declaration, d.tokens ++ rest = ts ∧ d.stmt = s := by
  simp only [printStatement, kind, andThen_eq_ok, token_eq_ok] at hread
  obtain ⟨keyword, _, ⟨rfl, hkeyword⟩, hvalue⟩ := hread
  obtain ⟨p, semicolon, rfl, rfl⟩ := closed_sound hvalue
  exact ⟨.print ⟨keyword, hkeyword⟩ p semicolon, by simp [Declaration.tokens], rfl⟩

theorem printStatement_viable
    (hread : (printStatement levels).read ts = .error (.mismatch rest x)) :
    ∃ u, u ++ rest = ts ∧ Viable u := by
  simp only [printStatement, kind, andThen_eq_error, token_eq_ok, token_eq_error] at hread
  rcases hread with ⟨he, -⟩ | ⟨keyword, _, ⟨rfl, hkeyword⟩, hread⟩
  · obtain ⟨p⟩ := Level.nonempty_phrase .expression
    obtain ⟨rfl, -⟩ := Failure.mismatch.inj he
    exact ⟨[], rfl, .expression p (terminal .semicolon), List.nil_prefix⟩
  · obtain ⟨u, q, semicolon, rfl, hu⟩ := closed_viable hread
    refine ⟨keyword :: u, rfl, .print ⟨keyword, hkeyword⟩ q semicolon, ?_⟩
    simpa [Declaration.tokens] using hu

/-- The first token tells which kind of statement it is. -/
theorem statement_read_cons (levels : Nat) (t : Token) (ts : List Token) :
    (statement levels).read (t :: ts) =
      if t.kind = .varWord then (varDeclaration levels).read (t :: ts)
      else if t.kind = .printWord then (printStatement levels).read (t :: ts)
      else (closed levels .expression .semicolonAfterExpression).read (t :: ts) := by
  rw [statement, byHead_read]
  cases hk : t.kind <;> simp [hk]

/-- A statement that is read has a derivation. -/
theorem statement_sound (hread : (statement levels).read ts = .ok (s, rest)) :
    ∃ d : Declaration, d.tokens ++ rest = ts ∧ d.stmt = s := by
  rw [statement, byHead_read] at hread
  revert hread
  split
  · exact varDeclaration_sound
  · exact printStatement_sound
  · intro hread
    obtain ⟨p, semicolon, rfl, rfl⟩ := closed_sound hread
    exact ⟨.expression p semicolon, by simp [Declaration.tokens], rfl⟩

/-- A declaration is read, whatever comes after it, unless it is nested too
deeply. -/
theorem statement_complete (levels : Nat) (d : Declaration) (rest : List Token) :
    (statement levels).read (d.tokens ++ rest) = .ok (d.stmt, rest) ∨
      (statement levels).read (d.tokens ++ rest) = .error .tooDeep := by
  cases d with
  | var keyword name equal value semicolon =>
      have hclosed := closed_complete levels (.var name.1) .semicolonAfterDeclaration value
        semicolon rest
      have hk := eq_of_beq keyword.2
      simp only [Declaration.tokens, Declaration.stmt, List.cons_append, List.append_assoc,
        List.nil_append]
      rw [statement_read_cons, if_pos hk]
      simp only [varDeclaration, andThen, kind, token, keyword.2, name.2, equal.2, if_true]
      exact hclosed
  | print keyword value semicolon =>
      have hclosed := closed_complete levels .print .semicolonAfterValue value semicolon rest
      have hk := eq_of_beq keyword.2
      simp only [Declaration.tokens, Declaration.stmt, List.cons_append, List.append_assoc,
        List.nil_append]
      rw [statement_read_cons, hk]
      simp only [printStatement, andThen, kind, token, keyword.2, if_true]
      exact hclosed
  | expression value semicolon =>
      have hclosed := closed_complete levels .expression .semicolonAfterExpression value
        semicolon rest
      obtain ⟨t, ts, hvalue⟩ := value.exists_tokens_eq_cons
      -- An expression begins with neither of the two keywords.
      have hmem : t.kind.standsInExpression = true := value.kind_of_mem t (by simp [hvalue])
      have hvar : t.kind ≠ .varWord := by
        intro hk
        rw [hk] at hmem
        contradiction
      have hprint : t.kind ≠ .printWord := by
        intro hk
        rw [hk] at hmem
        contradiction
      simp only [Declaration.tokens, Declaration.stmt, List.append_assoc, List.singleton_append]
      rw [hvalue, List.cons_append] at hclosed ⊢
      rw [statement_read_cons, if_neg hvar, if_neg hprint]
      exact hclosed

/-- Where a statement goes wrong, it has been right so far. -/
theorem statement_viable (hread : (statement levels).read ts = .error (.mismatch rest x)) :
    ∃ u, u ++ rest = ts ∧ Viable u := by
  rw [statement, byHead_read] at hread
  revert hread
  split
  · exact varDeclaration_viable
  · exact printStatement_viable
  · intro hread
    obtain ⟨u, p, semicolon, rfl, hu⟩ := closed_viable hread
    exact ⟨u, rfl, .expression p semicolon, hu⟩

end Statements

end MiniLox.Grammar
