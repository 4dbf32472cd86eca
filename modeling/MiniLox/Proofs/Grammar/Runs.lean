import MiniLox.Proofs.Grammar.Recognition

/-!
How a list of tokens is cut into parts: what one step takes, and where the
next one starts. A statement that is read ends right behind its semicolon, so
nothing after it matters. After a mistake the search for the next start looks
at one token more than it passes over.
-/

namespace MiniLox.Grammar

open Rule

/-- None of the tokens stands for the end of the text. -/
def Unended (ts : List Token) : Prop := ∀ t ∈ ts, t.kind ≠ .endOfText

instance : DecidablePred Unended :=
  fun ts => inferInstanceAs (Decidable (∀ t ∈ ts, t.kind ≠ .endOfText))

theorem Unended.of_suffix {ts rest : List Token} (h : Unended ts) (hrest : rest <:+ ts) :
    Unended rest :=
  fun t ht => h t (hrest.subset ht)

theorem Unended.append {us vs : List Token} (hu : Unended us) (hv : Unended vs) :
    Unended (us ++ vs) := by
  intro t ht
  rcases List.mem_append.mp ht with ht | ht
  · exact hu t ht
  · exact hv t ht

/-- The tokens are none, or a semicolon is the last of them. -/
def EndsClosed (ts : List Token) : Prop := ∀ t ∈ ts.getLast?, t.kind = .semicolon

instance : DecidablePred EndsClosed :=
  fun ts => inferInstanceAs (Decidable (∀ t ∈ ts.getLast?, t.kind = .semicolon))

theorem EndsClosed.of_suffix {ts rest : List Token} (h : EndsClosed ts) (hrest : rest <:+ ts) :
    EndsClosed rest := by
  obtain ⟨u, rfl⟩ := hrest
  intro t ht
  refine h t ?_
  rw [List.getLast?_append, Option.mem_def.mp ht]
  rfl

/-! ### The tokens of a declaration, seen from outside -/

namespace Declaration

theorem unended (d : Declaration) : Unended d.tokens := by
  obtain ⟨first, inside, semicolon, hd, hsemicolon, hfirst, hinside⟩ := d.exists_tokens_eq
  intro t ht hk
  simp only [hd, List.mem_cons, List.mem_append, List.not_mem_nil, or_false] at ht
  rcases ht with rfl | ht | rfl
  · rw [hk] at hfirst
    contradiction
  · have := hinside t ht
    rw [hk] at this
    contradiction
  · rw [hk] at hsemicolon
    contradiction

/-- There is no semicolon before the last token. -/
theorem exists_tokens_eq_append (d : Declaration) :
    ∃ (body : List Token) (semicolon : Token), d.tokens = body ++ [semicolon] ∧
      semicolon.kind = .semicolon ∧ ∀ t ∈ body, t.kind ≠ .semicolon := by
  obtain ⟨first, inside, semicolon, hd, hsemicolon, hfirst, hinside⟩ := d.exists_tokens_eq
  refine ⟨first :: inside, semicolon, hd, hsemicolon, fun t ht hk => ?_⟩
  rcases List.mem_cons.mp ht with rfl | ht
  · rw [hk] at hfirst
    contradiction
  · have := hinside t ht
    rw [hk] at this
    contradiction

/-- Behind the first token nothing starts a statement. -/
theorem not_startsStatement_of_mem (d : Declaration) {t u : Token} {ts : List Token}
    (hd : d.tokens = t :: ts) (hu : u ∈ ts) : u.kind.startsStatement = false := by
  obtain ⟨first, inside, semicolon, hd', hsemicolon, -, hinside⟩ := d.exists_tokens_eq
  obtain ⟨-, rfl⟩ := List.cons.inj (hd.symm.trans hd')
  rcases List.mem_append.mp hu with hu | hu
  · have := hinside u hu
    revert this
    cases u.kind <;> first | (intro; rfl) | (intro; contradiction)
  · obtain rfl := List.mem_singleton.mp hu
    rw [hsemicolon]
    rfl

/-- A declaration begins with nothing that ends with a semicolon but all of
itself. -/
theorem tokens_eq_of_prefix (d : Declaration) {body : List Token} {semicolon : Token}
    (hsemicolon : semicolon.kind = .semicolon) (hd : body ++ [semicolon] <+: d.tokens) :
    d.tokens = body ++ [semicolon] := by
  obtain ⟨inside, last, hd', -, hinside⟩ := d.exists_tokens_eq_append
  rw [hd'] at hd ⊢
  rcases List.prefix_concat_iff.mp hd with h | h
  · exact h.symm
  · exact absurd hsemicolon (hinside semicolon (h.subset (by simp)))

end Declaration

/-! ### Where reading goes on -/

/-- The second tokens are taken for the start of a statement, right behind the
first one. -/
def StartsBehind (t : Token) (ts : List Token) : Prop :=
  t.kind = .semicolon ∨ ∃ u ∈ ts.head?, u.kind.startsStatement = true

theorem resume_of_startsBehind {t : Token} {ts : List Token} (h : StartsBehind t ts) :
    resume (t :: ts) = ts := by
  rw [resume, if_pos]
  rcases h with h | ⟨u, hu, hk⟩
  · simp [h]
  · simp [Option.mem_def.mp hu, hk]

theorem resume_of_not_startsBehind {t : Token} {ts : List Token} (h : ¬StartsBehind t ts) :
    resume (t :: ts) = resume ts := by
  rw [resume, if_neg]
  intro hk
  simp only [Bool.or_eq_true, decide_eq_true_eq] at hk
  rcases hk with hk | hk
  · exact h (.inl hk)
  · cases ts with
    | nil => contradiction
    | cons u us => exact h (.inr ⟨u, rfl, hk⟩)

theorem resume_suffix (ts : List Token) : resume ts <:+ ts := by
  induction ts with
  | nil => exact List.suffix_refl _
  | cons t ts ih =>
      by_cases h : StartsBehind t ts
      · rw [resume_of_startsBehind h]
        exact List.suffix_cons t ts
      · rw [resume_of_not_startsBehind h]
        exact ih.trans (List.suffix_cons t ts)

/-- The search does not go further than the first start that it comes to. -/
theorem resume_append {ts w : List Token} (hts : ts ≠ [])
    (h : ∀ t ∈ ts.getLast?, StartsBehind t w) : resume (ts ++ w) = resume ts ++ w := by
  induction ts with
  | nil => contradiction
  | cons t ts ih =>
      cases ts with
      | nil =>
          have hnil : resume [t] = [] := by simp [resume]
          rw [hnil]
          exact resume_of_startsBehind (h t rfl)
      | cons u us =>
          have hrest : resume (u :: us ++ w) = resume (u :: us) ++ w := ih (List.cons_ne_nil u us) h
          have hhead : StartsBehind t (u :: us ++ w) ↔ StartsBehind t (u :: us) := Iff.rfl
          by_cases ht : StartsBehind t (u :: us)
          · rw [resume_of_startsBehind ht]
            exact resume_of_startsBehind (hhead.mpr ht)
          · rw [resume_of_not_startsBehind ht, ← hrest]
            exact resume_of_not_startsBehind (mt hhead.mp ht)

theorem resume_eq_nil {ts : List Token}
    (h : ∀ u t v, ts = u ++ t :: v → v ≠ [] → ¬StartsBehind t v) : resume ts = [] := by
  induction ts with
  | nil => rfl
  | cons t ts ih =>
      cases ts with
      | nil => simp [resume]
      | cons u us =>
          rw [resume_of_not_startsBehind (h [] t (u :: us) rfl (List.cons_ne_nil u us))]
          refine ih fun w t' v htail hv => ?_
          exact h (t :: w) t' v (by rw [htail]; rfl) hv

/-- The search passes over a declaration whose first token is the offending
one. -/
theorem Declaration.resume_tokens (d : Declaration) : resume d.tokens = [] := by
  obtain ⟨body, semicolon, hd, -, hbody⟩ := d.exists_tokens_eq_append
  refine resume_eq_nil fun u t v htokens hv => ?_
  rintro (ht | ⟨first, hfirst, hk⟩)
  · have hmem : t ∈ body := by
      obtain ⟨v', last, rfl⟩ := (List.eq_nil_or_concat v).resolve_left hv
      have hsplit : body ++ [semicolon] = (u ++ t :: v') ++ [last] := by
        rw [← hd, htokens, List.concat_eq_append, List.append_assoc, List.cons_append]
      rw [(List.append_inj' hsplit rfl).1]
      simp
    exact hbody t hmem ht
  · have hmem : first ∈ (u ++ t :: v).tail := by
      have hfirst : first ∈ v := List.mem_of_mem_head? hfirst
      cases u <;> simp [hfirst]
    obtain ⟨t', ts, hcons⟩ := d.exists_tokens_eq_cons
    rw [← htokens, hcons] at hmem
    rw [d.not_startsStatement_of_mem hcons hmem] at hk
    contradiction

/-! ### Where a statement goes wrong -/

section Mistakes

variable {levels : Nat} {ts rest : List Token} {x : Expectation}

theorem Declaration.read_ne_mismatch (d : Declaration) (w : List Token) :
    (statement levels).read (d.tokens ++ w) ≠ .error (.mismatch rest x) := by
  intro h
  rcases statement_complete levels d w with hread | hread
  · cases hread.symm.trans h
  · cases hread.symm.trans h

/-- The offending token cannot stand where it does: a declaration that went
on with it would have been read. -/
theorem not_viable_of_mismatch {u : List Token} {t : Token}
    (h : (statement levels).read (u ++ t :: ts) = .error (.mismatch (t :: ts) x)) :
    ¬Viable (u ++ [t]) := by
  rintro ⟨d, w, hd⟩
  rw [List.append_assoc, List.singleton_append] at hd
  -- Up to the offending token the two are alike.
  have hread : (statement levels).read (u ++ t :: w) = .error (.mismatch (t :: w) x) :=
    (statement_local levels).mismatch h rfl
  rw [hd, ← List.append_nil d.tokens] at hread
  exact d.read_ne_mismatch [] hread

/-- Behind a semicolon nothing is missing. -/
theorem rest_ne_nil_of_mismatch (hts : ts ≠ []) (hclosed : EndsClosed ts)
    (h : (statement levels).read ts = .error (.mismatch rest x)) : rest ≠ [] := by
  rintro rfl
  obtain ⟨u, hu, d, hd⟩ := statement_viable h
  rw [List.append_nil] at hu
  obtain ⟨body, semicolon, rfl⟩ : ∃ body semicolon, ts = body ++ [semicolon] :=
    ⟨_, _, (List.dropLast_concat_getLast hts).symm⟩
  rw [hu] at hd
  have hsemicolon : semicolon.kind = .semicolon := hclosed semicolon (by simp)
  rw [← d.tokens_eq_of_prefix hsemicolon hd,
    ← List.append_nil d.tokens] at h
  exact d.read_ne_mismatch [] h

end Mistakes

/-! ### Steps -/

namespace Program

variable {last : Token} {levels : Nat} {ts rest : List Token} {s : Stmt} {x : Expectation}
  {part : Part} {p : Program}

@[simp] theorem parts_cons : (p.cons part).parts = part :: p.parts := rfl

@[simp] theorem tooDeep_cons : (p.cons part).tooDeep = p.tooDeep := rfl

@[simp] theorem statements_cons_statement :
    (p.cons (.statement s)).statements = s :: p.statements := rfl

@[simp] theorem statements_cons_mistake {e : SyntaxError} :
    (p.cons (.mistake e)).statements = p.statements := rfl

@[simp] theorem errors_cons_statement : (p.cons (.statement s)).errors = p.errors := rfl

@[simp] theorem errors_cons_mistake {e : SyntaxError} :
    (p.cons (.mistake e)).errors = e :: p.errors := rfl

theorem ofTokensBefore_nil :
    ofTokensBefore last levels [] = { parts := [], tooDeep := false } := by
  rw [ofTokensBefore]

theorem ofTokensBefore_of_ok (h : (statement levels).read ts = .ok (s, rest)) :
    ofTokensBefore last levels ts = (ofTokensBefore last levels rest).cons (.statement s) := by
  cases ts with
  | nil =>
      have := (statement levels).rest_lt h
      contradiction
  | cons t ts =>
      rw [ofTokensBefore]
      split <;> simp_all

theorem ofTokensBefore_of_mismatch (hts : ts ≠ [])
    (h : (statement levels).read ts = .error (.mismatch rest x)) :
    ofTokensBefore last levels ts =
      (ofTokensBefore last levels (resume rest)).cons (.mistake ⟨rest.headD last, x⟩) := by
  cases ts with
  | nil => contradiction
  | cons t ts =>
      rw [ofTokensBefore]
      split <;> simp_all

theorem ofTokensBefore_of_tooDeep (hts : ts ≠ [])
    (h : (statement levels).read ts = .error .tooDeep) :
    ofTokensBefore last levels ts = { parts := [], tooDeep := true } := by
  cases ts with
  | nil => contradiction
  | cons t ts =>
      rw [ofTokensBefore]
      split <;> simp_all

/-- The program of a text: the tokens up to the one that ends it. -/
theorem ofTokens_append_last (hts : Unended ts) (hlast : last.kind = .endOfText) :
    ofTokens levels (ts ++ [last]) = ofTokensBefore last levels ts := by
  have hnone : ts.find? (fun t => t.kind == .endOfText) = Option.none := by
    simpa [List.find?_eq_none, Unended] using hts
  have hlastOf : lastOf (ts ++ [last]) = last := by
    simp [lastOf, List.find?_append, hnone, hlast]
  have hall : ∀ t ∈ ts, (t.kind != .endOfText) = true := fun t ht => bne_iff_ne.mpr (hts t ht)
  have hbefore : (ts ++ [last]).takeWhile (fun t => t.kind != .endOfText) = ts := by
    rw [List.takeWhile_append_of_pos hall]
    simp [hlast]
  rw [ofTokens, hlastOf, hbefore]

/-- Every statement has a derivation, and the tokens of the derivation stand
in the text one behind the other. -/
theorem exists_declaration_of_mem_before (hs : s ∈ (ofTokensBefore last levels ts).statements) :
    ∃ d : Declaration, d.stmt = s ∧ d.tokens <:+: ts := by
  fun_induction ofTokensBefore last levels ts with
  | case1 => contradiction
  | case2 t ts first rest hread ih =>
      obtain ⟨d, hd, rfl⟩ := statement_sound hread
      rw [statements_cons_statement] at hs
      rcases List.mem_cons.mp hs with rfl | hs
      · exact ⟨d, rfl, ⟨[], rest, hd⟩⟩
      · obtain ⟨e, he, hinfix⟩ := ih hs
        refine ⟨e, he, hinfix.trans ?_⟩
        rw [← hd]
        exact (List.suffix_append d.tokens rest).isInfix
  | case3 t ts rest x hread error =>
      rename_i ih
      rw [statements_cons_mistake] at hs
      obtain ⟨e, he, hinfix⟩ := ih hs
      have hrest : resume rest <:+ t :: ts :=
        (resume_suffix rest).trans ((statement_local levels).suffix_of_mismatch hread)
      exact ⟨e, he, hinfix.trans hrest.isInfix⟩
  | case4 => contradiction

theorem exists_declaration_of_mem {tokens : List Token}
    (hs : s ∈ (ofTokens levels tokens).statements) :
    ∃ d : Declaration, d.stmt = s ∧ d.tokens <:+: tokens := by
  obtain ⟨d, hd, hinfix⟩ := exists_declaration_of_mem_before hs
  exact ⟨d, hd, hinfix.trans (List.takeWhile_prefix _).isInfix⟩

theorem layered_of_mem {tokens : List Token} {s : Stmt}
    (hs : s ∈ (ofTokens levels tokens).statements) : s.Layered := by
  obtain ⟨d, rfl, -⟩ := exists_declaration_of_mem hs
  exact d.layered

/-- A mistake shows at a token of the text, or at the one that ends it. -/
theorem token_of_mem_errors_before {e : SyntaxError}
    (he : e ∈ (ofTokensBefore last levels ts).errors) : e.token = last ∨ e.token ∈ ts := by
  fun_induction ofTokensBefore last levels ts with
  | case1 => contradiction
  | case2 t ts first rest hread ih =>
      rw [errors_cons_statement] at he
      exact (ih he).imp_right fun hmem =>
        ((statement_local levels).suffix_of_ok hread).subset hmem
  | case3 t ts rest x hread error =>
      rename_i ih
      have hrest : rest <:+ t :: ts := (statement_local levels).suffix_of_mismatch hread
      rw [errors_cons_mistake] at he
      rcases List.mem_cons.mp he with rfl | he
      · cases rest with
        | nil => exact .inl rfl
        | cons u us => exact .inr (hrest.subset (List.mem_cons_self ..))
      · exact (ih he).imp_right fun hmem => ((resume_suffix rest).trans hrest).subset hmem
  | case4 => contradiction

theorem token_mem_of_mem_errors {e : SyntaxError} (hts : Unended ts)
    (hlast : last.kind = .endOfText) (he : e ∈ (ofTokens levels (ts ++ [last])).errors) :
    e.token ∈ ts ++ [last] := by
  rw [ofTokens_append_last hts hlast] at he
  rcases token_of_mem_errors_before he with htoken | hmem
  · exact List.mem_append_right ts (List.mem_singleton.mpr htoken)
  · exact List.mem_append_left [last] hmem

end Program

end MiniLox.Grammar
