import MiniLox.Proofs.Grammar.Runs

/-!
How far a mistake reaches. A semicolon is a boundary that nothing crosses:
what comes before it and what comes after it are read as if each stood alone.

A keyword that starts a statement is a boundary only if the mistake was
noticed before it. If the tokens before break off in the middle of a
statement, the mistake is noticed at the keyword itself; then the keyword is
the offending token, and is passed over with the statement that it starts.
-/

namespace MiniLox.Grammar

open Rule

/-! ### Semicolons -/

namespace Program

variable {p q : Program} {part : Part} {levels : Nat} {last last' : Token} {a b : List Token}

/-- The program of tokens that are followed by those of another one. Nothing
is read behind a statement that is nested too deeply. -/
def followedBy (p q : Program) : Program :=
  if p.tooDeep then p else { parts := p.parts ++ q.parts, tooDeep := q.tooDeep }

theorem cons_followedBy : (p.cons part).followedBy q = (p.followedBy q).cons part := by
  cases hp : p.tooDeep <;> simp [followedBy, cons, hp]

theorem tooDeep_followedBy :
    (p.followedBy q).tooDeep = false ↔ p.tooDeep = false ∧ q.tooDeep = false := by
  cases hp : p.tooDeep <;> simp [followedBy, hp]

theorem statements_followedBy (h : p.tooDeep = false) :
    (p.followedBy q).statements = p.statements ++ q.statements := by
  simp [followedBy, h, statements]

theorem errors_followedBy (h : p.tooDeep = false) :
    (p.followedBy q).errors = p.errors ++ q.errors := by
  simp [followedBy, h, errors]

/-- No statement and no search for the next one goes on behind a semicolon at
the end of the first tokens. -/
theorem ofTokensBefore_append (last' : Token) (b : List Token) (ha : EndsClosed a) :
    ofTokensBefore last levels (a ++ b) =
      (ofTokensBefore last' levels a).followedBy (ofTokensBefore last levels b) := by
  fun_induction ofTokensBefore last' levels a with
  | case1 => rfl
  | case2 t ts s rest hread ih =>
      have hrest : rest <:+ t :: ts := (statement_local levels).suffix_of_ok hread
      have hread' : (statement levels).read (t :: ts ++ b) = .ok (s, rest ++ b) :=
        (statement_closed levels).ok_append (statement_local levels) hread b
      rw [ofTokensBefore_of_ok hread', ih (ha.of_suffix hrest), cons_followedBy]
  | case3 t ts rest x hread error ih =>
      -- The mistake is noticed before the end, and the search stops there at the latest.
      have hrest : rest <:+ t :: ts := (statement_local levels).suffix_of_mismatch hread
      have hne : rest ≠ [] := rest_ne_nil_of_mismatch (List.cons_ne_nil t ts) ha hread
      have hread' : (statement levels).read (t :: ts ++ b) = .error (.mismatch (rest ++ b) x) :=
        (statement_local levels).mismatch_append hread hne b
      have hresume : resume (rest ++ b) = resume rest ++ b :=
        resume_append hne fun t ht => .inl (ha.of_suffix hrest t ht)
      have hoffending : (rest ++ b).headD last = rest.headD last' := by
        cases rest with
        | nil => contradiction
        | cons u us => rfl
      have hboth : t :: ts ++ b ≠ [] := List.cons_ne_nil t _
      rw [ofTokensBefore_of_mismatch hboth hread', hresume, hoffending,
        ih (ha.of_suffix ((resume_suffix rest).trans hrest)), cons_followedBy]
  | case4 t ts hread =>
      have hread' : (statement levels).read (t :: ts ++ b) = .error .tooDeep :=
        statement_tooDeep_append levels (List.cons_ne_nil t ts) b hread
      have hboth : t :: ts ++ b ≠ [] := List.cons_ne_nil t _
      rw [ofTokensBefore_of_tooDeep hboth hread']
      rfl

/-- What is made of tokens of which the last is a semicolon, and of the tokens
after them, is what is made of either part alone. -/
theorem semicolon_separates (ha : Unended a) (hclosed : EndsClosed a) (hb : Unended b)
    (hlast : last.kind = .endOfText) (hlast' : last'.kind = .endOfText) :
    ((ofTokens levels (a ++ b ++ [last])).tooDeep = false ↔
        (ofTokens levels (a ++ [last'])).tooDeep = false ∧
          (ofTokens levels (b ++ [last])).tooDeep = false) ∧
      ((ofTokens levels (a ++ b ++ [last])).tooDeep = false →
        (ofTokens levels (a ++ b ++ [last])).statements =
            (ofTokens levels (a ++ [last'])).statements ++
              (ofTokens levels (b ++ [last])).statements ∧
          (ofTokens levels (a ++ b ++ [last])).errors =
            (ofTokens levels (a ++ [last'])).errors ++ (ofTokens levels (b ++ [last])).errors) := by
  rw [ofTokens_append_last (ha.append hb) hlast, ofTokens_append_last ha hlast',
    ofTokens_append_last hb hlast, ofTokensBefore_append last' b hclosed]
  refine ⟨tooDeep_followedBy, fun hdeep => ?_⟩
  have hfirst := (tooDeep_followedBy.mp hdeep).1
  exact ⟨statements_followedBy hfirst, errors_followedBy hfirst⟩

/-- The tokens of `(;`. -/
def openParen : List Token := [word .leftParen "(", word .semicolon ";"]

theorem semicolon_separates_openParen :
    (ofTokens 4 (openParen ++ openParen ++ [word .endOfText ""])).tooDeep = false ∧
      (ofTokens 4 (openParen ++ openParen ++ [word .endOfText ""])).errors =
        (ofTokens 4 (openParen ++ [word .endOfText ""])).errors ++
          (ofTokens 4 (openParen ++ [word .endOfText ""])).errors := by
  have hdeep : (ofTokens 4 (openParen ++ openParen ++ [word .endOfText ""])).tooDeep = false := by
    decide +kernel
  have hunended : Unended openParen := by decide
  have hclosed : EndsClosed openParen := by decide
  have hend : (word .endOfText "").kind = .endOfText := rfl
  exact ⟨hdeep, ((semicolon_separates hunended hclosed hunended hend hend).2 hdeep).2⟩

end Program

/-! ### Keywords -/

section Keywords

variable {levels : Nat} {ts others : List Token} {first : Token} {x : Expectation}

/-- Behind other tokens of a declaration nothing starts a statement. -/
theorem not_viable_append_keyword (hts : ts ≠ []) (hfirst : first.kind.startsStatement = true)
    (w : List Token) : ¬Viable (ts ++ first :: w) := by
  rintro ⟨d, w', hd⟩
  cases ts with
  | nil => contradiction
  | cons t ts =>
      have hmem : first ∈ ts ++ first :: w ++ w' := by simp
      have hnot := d.not_startsStatement_of_mem hd.symm hmem
      rw [hfirst] at hnot
      contradiction

/-- If tokens break off in the middle of a statement, then at a keyword that
comes next nothing else can be noticed than that. -/
theorem mismatch_at_keyword (hts : ts ≠ []) (hfirst : first.kind.startsStatement = true)
    (hread : (statement levels).read ts = .error (.mismatch [] x)) (w : List Token) :
    (∃ x', (statement levels).read (ts ++ first :: w) = .error (.mismatch (first :: w) x')) ∨
      (statement levels).read (ts ++ first :: w) = .error .tooDeep := by
  cases hboth : (statement levels).read (ts ++ first :: w) with
  | ok result =>
      obtain ⟨s, rest⟩ := result
      obtain ⟨d, hd, -⟩ := statement_sound hboth
      exfalso
      rcases List.append_eq_append_iff.mp hd with ⟨z, hz, -⟩ | ⟨z, hz, hw⟩
      · rw [hz] at hread
        exact d.read_ne_mismatch z hread
      · cases z with
        | nil =>
            rw [List.append_nil] at hz
            rw [← hz, ← List.append_nil d.tokens] at hread
            exact d.read_ne_mismatch [] hread
        | cons t z =>
            obtain ⟨rfl, -⟩ := List.cons.inj hw
            have hprefix : ts ++ first :: z <+: d.tokens := ⟨[], (List.append_nil _).trans hz.symm⟩
            exact not_viable_append_keyword hts hfirst z ⟨d, hprefix⟩
  | error failure =>
      cases failure with
      | tooDeep => exact .inr rfl
      | mismatch rest x' =>
          left
          obtain ⟨u, hu, hviable⟩ := statement_viable hboth
          rcases List.append_eq_append_iff.mp hu with ⟨z, rfl, rfl⟩ | ⟨z, rfl, hw⟩
          · cases z with
            | nil => exact ⟨x', rfl⟩
            | cons t z =>
                -- A mistake before the keyword would have been noticed without it.
                exfalso
                rw [List.append_assoc] at hboth
                have hread' : (statement levels).read (u ++ t :: z) =
                    .error (.mismatch (t :: z) x') :=
                  (statement_local levels).mismatch hboth rfl
                cases hread.symm.trans hread'
          · cases z with
            | nil => exact ⟨x', by rw [hw]; rfl⟩
            | cons t z =>
                obtain ⟨rfl, -⟩ := List.cons.inj hw
                exact absurd hviable (not_viable_append_keyword hts hfirst z)

end Keywords

namespace Program

variable {levels : Nat} {last first : Token} {m others : List Token} {d : Declaration}
  {s : Stmt} {p q : Program} {part : Part}

/-- What becomes of a statement that is put behind the tokens of a program.
Either it is read, or a mistake that was noticed at the end of the tokens is
now noticed at its first token. -/
inductive Outcome (last first : Token) (s : Stmt) (p q : Program) : Prop where
  | kept (hend : ∀ e ∈ p.errors, e.token.kind ≠ .endOfText)
      (hparts : q.parts = p.parts ++ [.statement s])
  | lost (parts : List Part) (x x' : Expectation)
      (hp : p.parts = parts ++ [.mistake ⟨last, x⟩])
      (hq : q.parts = parts ++ [.mistake ⟨first, x'⟩])

theorem Outcome.cons_statement {s' : Stmt} (h : Outcome last first s p q) :
    Outcome last first s (p.cons (.statement s')) (q.cons (.statement s')) := by
  cases h with
  | kept hend hparts =>
      refine .kept hend ?_
      rw [parts_cons, hparts]
      rfl
  | lost parts x x' hp hq =>
      refine .lost (.statement s' :: parts) x x' ?_ ?_
      · rw [parts_cons, hp]
        rfl
      · rw [parts_cons, hq]
        rfl

theorem Outcome.cons_mistake {error : SyntaxError} (herror : error.token.kind ≠ .endOfText)
    (h : Outcome last first s p q) :
    Outcome last first s (p.cons (.mistake error)) (q.cons (.mistake error)) := by
  cases h with
  | kept hend hparts =>
      refine .kept (fun e he => ?_) ?_
      · rw [errors_cons_mistake] at he
        rcases List.mem_cons.mp he with rfl | he
        · exact herror
        · exact hend e he
      · rw [parts_cons, hparts]
        rfl
  | lost parts x x' hp hq =>
      refine .lost (.mistake error :: parts) x x' ?_ ?_
      · rw [parts_cons, hp]
        rfl
      · rw [parts_cons, hq]
        rfl

/-- A declaration that starts with a keyword is read behind any tokens, unless
these break off in the middle of a statement. -/
theorem outcome_of_declaration (hd : d.tokens = first :: others)
    (hfirst : first.kind.startsStatement = true) (hm : Unended m)
    (hdeep : (ofTokensBefore last levels (m ++ d.tokens)).tooDeep = false) :
    Outcome last first d.stmt (ofTokensBefore last levels m)
      (ofTokensBefore last levels (m ++ d.tokens)) := by
  fun_induction ofTokensBefore last levels m with
  | case1 =>
      rw [List.nil_append, ← List.append_nil d.tokens] at hdeep ⊢
      rcases statement_complete levels d [] with hread | hread
      · rw [ofTokensBefore_of_ok hread, ofTokensBefore_nil]
        exact .kept (fun e he => absurd he List.not_mem_nil) rfl
      · rw [ofTokensBefore_of_tooDeep (by simp [hd]) hread] at hdeep
        contradiction
  | case2 t ts s rest hread ih =>
      have hread' : (statement levels).read (t :: ts ++ d.tokens) = .ok (s, rest ++ d.tokens) :=
        (statement_closed levels).ok_append (statement_local levels) hread d.tokens
      have hrest : Unended rest := hm.of_suffix ((statement_local levels).suffix_of_ok hread)
      rw [ofTokensBefore_of_ok hread'] at hdeep ⊢
      exact (ih hrest hdeep).cons_statement
  | case3 t ts rest x hread error ih =>
      have hboth : t :: ts ++ d.tokens ≠ [] := List.cons_ne_nil t _
      cases rest with
      | nil =>
          -- The tokens break off in the middle of a statement.
          have hat := mismatch_at_keyword (List.cons_ne_nil t ts) hfirst hread others
          rw [← hd] at hat
          rcases hat with ⟨x', hat⟩ | hat
          · rw [ofTokensBefore_of_mismatch hboth hat, d.resume_tokens, hd]
            exact .lost [] x x' (by simp [resume, ofTokensBefore_nil, error])
              (by simp [ofTokensBefore_nil])
          · rw [ofTokensBefore_of_tooDeep hboth hat] at hdeep
            contradiction
      | cons offending rest =>
          -- The search for the next start does not go further than the keyword.
          have hsuffix : offending :: rest <:+ t :: ts :=
            (statement_local levels).suffix_of_mismatch hread
          have hread' : (statement levels).read (t :: ts ++ d.tokens) =
              .error (.mismatch (offending :: rest ++ d.tokens) x) :=
            (statement_local levels).mismatch_append hread (List.cons_ne_nil _ _) d.tokens
          have hresume : resume (offending :: rest ++ d.tokens) =
              resume (offending :: rest) ++ d.tokens :=
            resume_append (List.cons_ne_nil _ _) fun u _ => .inr ⟨first, by simp [hd], hfirst⟩
          have herror : error.token.kind ≠ .endOfText :=
            hm.of_suffix hsuffix offending (List.mem_cons_self ..)
          rw [ofTokensBefore_of_mismatch hboth hread', hresume] at hdeep ⊢
          exact (ih (hm.of_suffix ((resume_suffix _).trans hsuffix)) hdeep).cons_mistake herror
  | case4 t ts hread =>
      have hread' : (statement levels).read (t :: ts ++ d.tokens) = .error .tooDeep :=
        statement_tooDeep_append levels (List.cons_ne_nil t ts) d.tokens hread
      have hboth : t :: ts ++ d.tokens ≠ [] := List.cons_ne_nil t _
      rw [ofTokensBefore_of_tooDeep hboth hread'] at hdeep
      contradiction

theorem Outcome.statements_of_kept (hlast : last.kind = .endOfText)
    (h : Outcome last first s p q) (hend : ∀ e ∈ p.errors, e.token.kind ≠ .endOfText) :
    q.statements = p.statements ++ [s] ∧ q.errors = p.errors := by
  cases h with
  | kept _ hparts => simp [statements, errors, hparts]
  | lost parts x x' hp _ =>
      have hmem : ⟨last, x⟩ ∈ p.errors := by simp [errors, hp]
      exact absurd hlast (hend _ hmem)

theorem Outcome.statements_of_lost (h : Outcome last first s p q)
    (hend : ¬∀ e ∈ p.errors, e.token.kind ≠ .endOfText) :
    q.statements = p.statements ∧ ∃ errors x x', p.errors = errors ++ [⟨last, x⟩] ∧
      q.errors = errors ++ [⟨first, x'⟩] := by
  cases h with
  | kept hkept _ => exact absurd hkept hend
  | lost parts x x' hp hq =>
      refine ⟨by simp [statements, hp, hq],
        Program.errors { parts := parts, tooDeep := false }, x, x', ?_, ?_⟩
      · simp [errors, hp]
      · simp [errors, hq]

/-- A variable declaration or a print statement behind any tokens is read
exactly if no mistake is noticed at the end of these tokens when they stand
alone. If one is, it is noticed at the keyword now, and the statement is
passed over. -/
theorem keeps_statement_iff (hd : d.tokens = first :: others)
    (hkeyword : first.kind = .varWord ∨ first.kind = .printWord) (hm : Unended m)
    (hlast : last.kind = .endOfText)
    (hdeep : (ofTokens levels (m ++ d.tokens ++ [last])).tooDeep = false) :
    ((ofTokens levels (m ++ d.tokens ++ [last])).statements =
          (ofTokens levels (m ++ [last])).statements ++ [d.stmt] ↔
        ∀ e ∈ (ofTokens levels (m ++ [last])).errors, e.token.kind ≠ .endOfText) ∧
      ((∀ e ∈ (ofTokens levels (m ++ [last])).errors, e.token.kind ≠ .endOfText) →
        (ofTokens levels (m ++ d.tokens ++ [last])).errors =
          (ofTokens levels (m ++ [last])).errors) ∧
      ((¬∀ e ∈ (ofTokens levels (m ++ [last])).errors, e.token.kind ≠ .endOfText) →
        (ofTokens levels (m ++ d.tokens ++ [last])).statements =
            (ofTokens levels (m ++ [last])).statements ∧
          ∃ errors x x', (ofTokens levels (m ++ [last])).errors = errors ++ [⟨last, x⟩] ∧
            (ofTokens levels (m ++ d.tokens ++ [last])).errors = errors ++ [⟨first, x'⟩]) := by
  have hfirst : first.kind.startsStatement = true := by
    rcases hkeyword with hk | hk
    · rw [hk]
      rfl
    · rw [hk]
      rfl
  rw [ofTokens_append_last (hm.append d.unended) hlast] at hdeep ⊢
  rw [ofTokens_append_last hm hlast]
  have houtcome := outcome_of_declaration hd hfirst hm hdeep
  refine ⟨⟨fun hkept => ?_, fun hend => (houtcome.statements_of_kept hlast hend).1⟩,
    fun hend => (houtcome.statements_of_kept hlast hend).2, houtcome.statements_of_lost⟩
  refine Classical.byContradiction fun hend => ?_
  rw [(houtcome.statements_of_lost hend).1] at hkept
  have hlength := congrArg List.length hkept
  rw [List.length_append, List.length_singleton] at hlength
  omega

/-- The tokens of `var x = true`, with no semicolon. -/
def unclosed : List Token :=
  [word .varWord "var", word .identifier "x", word .equal "=", word .trueWord "true"]

/-- The derivation of `print x;`. -/
def printX : Declaration :=
  .print ⟨word .printWord "print", rfl⟩
    (.chain (.chain (.chain (.chain (.plain (.name ⟨word .identifier "x", rfl⟩)) .none) .none)
      .none) .none)
    ⟨word .semicolon ";", rfl⟩

/-- Nothing is left of `var x = true print x;`. -/
theorem loses_statement_at_keyword :
    (ofTokens 4 (unclosed ++ printX.tokens ++ [word .endOfText ""])).tooDeep = false ∧
      (ofTokens 4 (unclosed ++ printX.tokens ++ [word .endOfText ""])).statements = [] ∧
      printX.stmt ∉
        (ofTokens 4 (unclosed ++ printX.tokens ++ [word .endOfText ""])).statements := by
  have hnone :
      (ofTokens 4 (unclosed ++ printX.tokens ++ [word .endOfText ""])).statements = [] := by
    decide +kernel
  refine ⟨by decide +kernel, hnone, ?_⟩
  rw [hnone]
  exact List.not_mem_nil

theorem keeps_statement_iff_printX :
    ¬(ofTokens 4 (unclosed ++ printX.tokens ++ [word .endOfText ""])).statements =
          (ofTokens 4 (unclosed ++ [word .endOfText ""])).statements ++ [printX.stmt] ∧
      (ofTokens 4 (unclosed ++ printX.tokens ++ [word .endOfText ""])).statements =
        (ofTokens 4 (unclosed ++ [word .endOfText ""])).statements := by
  have hdeep :
      (ofTokens 4 (unclosed ++ printX.tokens ++ [word .endOfText ""])).tooDeep = false := by
    decide +kernel
  have hend : ¬∀ e ∈ (ofTokens 4 (unclosed ++ [word .endOfText ""])).errors,
      e.token.kind ≠ .endOfText := by
    decide +kernel
  obtain ⟨hiff, -, hlost⟩ := keeps_statement_iff rfl (.inr rfl) (by decide) rfl hdeep
  exact ⟨mt hiff.mp hend, (hlost hend).1⟩

end Program

end MiniLox.Grammar
