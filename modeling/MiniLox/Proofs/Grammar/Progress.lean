import MiniLox.Proofs.Grammar.Nesting
import MiniLox.Proofs.Grammar.Transitions

/-!
Reading by position goes forward and comes to an end. Every declaration takes a token at
least: one that is well formed is not empty, and recovery passes over the offending token
unless the end has been reached. So the position rises up to the first mark for the end of
the text and stays there, and on the way no look-up leaves the list of tokens.
-/

namespace MiniLox.Grammar

namespace Reading

/-! ### Statements -/

section Statements

variable {tokens front rest : List Token} {last t : Token} {i : Nat} {s : Stmt} {x : Expectation}

theorem varDeclaration_read_cons (ht : t.kind = .varWord) (levels : Nat) (ts : List Token) :
    (Grammar.varDeclaration levels).read (t :: ts) =
      ((Rule.kind .identifier .variableName).andThen fun name =>
        (Rule.kind .equal .equalAfterName).andThen fun _ =>
          closed levels (.var name) .semicolonAfterDeclaration).read ts := by
  simp [Grammar.varDeclaration, Rule.kind, Rule.token, Rule.andThen, ht]

theorem printStatement_read_cons (ht : t.kind = .printWord) (levels : Nat) (ts : List Token) :
    (Grammar.printStatement levels).read (t :: ts) =
      (closed levels .print .semicolonAfterValue).read ts := by
  simp [Grammar.printStatement, Rule.kind, Rule.token, Rule.andThen, ht]

variable {rounds : Nat} (h : Ended tokens front last) (hrounds : front.length < rounds)
  (levels : Nat)

include h hrounds

theorem follows_closed (form : Form) (x : Expectation) :
    Follows tokens front last
      (do
        let e ← expression tokens rounds levels
        let _ ← consume tokens .semicolon x
        return { form := form, expr := e })
      (closed levels form x) :=
  (follows_expression h hrounds levels).andThen fun e =>
    (follows_consume h .semicolon x).map fun _ => ({ form := form, expr := e } : Stmt)

theorem follows_declared :
    Follows tokens front last (declared tokens rounds levels) (Grammar.statement levels) := by
  intro i hi
  refine .matchAny h hi (fun t ht hk => ?_) fun hvar => ?_
  · have hk : t.kind = .varWord := by simpa using hk
    obtain ⟨hlt, -⟩ := List.getElem?_eq_some_iff.mp ht
    have hdeclaration := (follows_consume h .identifier .variableName).andThen fun name =>
      (follows_consume h .equal .equalAfterName).andThen fun _ =>
        follows_closed h hrounds levels (.var name) .semicolonAfterDeclaration
    rw [Ended.drop_eq_cons ht, statement_read_cons, if_pos hk, varDeclaration_read_cons hk]
    exact hdeclaration (i + 1) hlt
  refine .matchAny h hi (fun t ht hk => ?_) fun hprint => ?_
  · have hk : t.kind = .printWord := by simpa using hk
    obtain ⟨hlt, -⟩ := List.getElem?_eq_some_iff.mp ht
    rw [Ended.drop_eq_cons ht, statement_read_cons, if_neg (by rw [hk]; decide), if_pos hk,
      printStatement_read_cons hk]
    exact follows_closed h hrounds levels .print .semicolonAfterValue (i + 1) hlt
  · have hread : (Grammar.statement levels).read (front.drop i) =
        (closed levels .expression .semicolonAfterExpression).read (front.drop i) := by
      rcases Ended.position_cases hi with rfl | ⟨t, ht, -⟩
      · rw [List.drop_length]
        rfl
      · rw [nextIs_of_some ht] at hvar hprint
        rw [Ended.drop_eq_cons ht, statement_read_cons, if_neg (by simpa using hvar),
          if_neg (by simpa using hprint)]
    rw [hread]
    exact follows_closed h hrounds levels .expression .semicolonAfterExpression i hi

end Statements

/-! ### Recovery -/

section Recovery

variable {tokens front : List Token} {last t : Token} {i rounds : Nat}
  (h : Ended tokens front last)

include h

theorem goes_passOver_last :
    Goes tokens (passOver tokens (rounds + 1)) front.length (.ok ()) front.length [] := by
  rw [passOver]
  exact (goes_isAtEnd_last h).bind (Goes.pure ())

/-- A statement starts behind the token that has been passed over. -/
theorem goes_passOver_starts {u : Token} (ht : front[i]? = some t) (hu : front[i + 1]? = some u)
    (hstarts : t.kind = .semicolon ∨ u.kind.startsStatement = true) :
    Goes tokens (passOver tokens (rounds + 1)) (i + 1) (.ok ()) (i + 1) [] := by
  obtain ⟨hlt, -⟩ := List.getElem?_eq_some_iff.mp ht
  rw [passOver]
  refine (goes_isAtEnd_front h hu).bind ((Goes.previous (h.firstEnd_eq ▸ hlt)
    (h.getElem?_front ht)).bind ?_)
  split
  · exact Goes.pure ()
  · next hsemicolon =>
      have hkind : u.kind.startsStatement = true :=
        hstarts.resolve_left fun heq => hsemicolon (beq_iff_eq.mpr heq)
      refine (goes_peek_front h hu).bind ?_
      rw [if_pos hkind]
      exact Goes.pure ()

/-- No statement starts there, and the next token is passed over, too. -/
theorem goes_passOver_next {u : Token} {final : Except Stop Unit} {k : Nat}
    (ht : front[i]? = some t) (hu : front[i + 1]? = some u)
    (hno : ¬(t.kind = .semicolon ∨ u.kind.startsStatement = true))
    (hgoes : Goes tokens (passOver tokens rounds) (i + 2) final k []) :
    Goes tokens (passOver tokens (rounds + 1)) (i + 1) final k [] := by
  obtain ⟨hlt, -⟩ := List.getElem?_eq_some_iff.mp ht
  obtain ⟨hsemicolon, hkind⟩ := not_or.mp hno
  rw [passOver]
  refine (goes_isAtEnd_front h hu).bind ((Goes.previous (h.firstEnd_eq ▸ hlt)
    (h.getElem?_front ht)).bind ?_)
  rw [if_neg fun heq => hsemicolon (beq_iff_eq.mp heq)]
  refine (goes_peek_front h hu).bind ?_
  rw [if_neg hkind]
  exact (goes_advance_front h hu).bind hgoes

/-- Behind a token that has been passed over recovery ends where the grammar resumes. -/
theorem goes_passOver (ht : front[i]? = some t) (hrounds : front.length ≤ rounds + (i + 1)) :
    ∃ k, i < k ∧ k ≤ front.length ∧ front.drop k = resume (front.drop i) ∧
      Goes tokens (passOver tokens (rounds + 1)) (i + 1) (.ok ()) k [] := by
  generalize hts : front.drop i = ts
  fun_induction resume ts generalizing i t rounds with
  | case1 =>
      rw [Ended.drop_eq_cons ht] at hts
      contradiction
  | case2 u us hstarts =>
      obtain ⟨hu, hus, hi⟩ := Ended.of_drop_eq_cons hts
      refine ⟨i + 1, Nat.lt_succ_self i, hi, hus, ?_⟩
      rcases Ended.position_cases hi with hend | ⟨v, hv, -⟩
      · rw [hend]
        exact goes_passOver_last h
      · rw [Ended.drop_eq_cons hv] at hus
        subst hus
        exact goes_passOver_starts h hu hv (by simpa using hstarts)
  | case3 u us hno ih =>
      obtain ⟨hu, hus, hi⟩ := Ended.of_drop_eq_cons hts
      rcases Ended.position_cases hi with hend | ⟨v, hv, hi'⟩
      · refine ⟨i + 1, Nat.lt_succ_self i, hi, ?_, hend ▸ goes_passOver_last h⟩
        rw [← hus, hend, List.drop_length, resume]
      · obtain ⟨more, rfl⟩ : ∃ more, rounds = more + 1 := ⟨rounds - 1, by omega⟩
        obtain ⟨k, hik, hk, hresume, hgoes⟩ :=
          ih hv (show front.length ≤ more + (i + 1 + 1) by omega) hus
        refine ⟨k, Nat.lt_of_succ_lt hik, hk, hresume, goes_passOver_next h hu hv ?_ hgoes⟩
        rw [Ended.drop_eq_cons hv] at hus
        subst hus
        simpa using hno

/-- Recovery takes the offending token, unless it is the end. There is a token before the end
then. -/
theorem goes_synchronize (hrounds : front.length < rounds) (hi : i ≤ front.length)
    (hpos : 0 < front.length) :
    ∃ k, i ≤ k ∧ (i < front.length → i < k) ∧ k ≤ front.length ∧
      front.drop k = resume (front.drop i) ∧
        Goes tokens (synchronize tokens rounds) i (.ok ()) k [] := by
  obtain ⟨more, rfl⟩ : ∃ more, rounds = more + 1 := ⟨rounds - 1, by omega⟩
  rcases Ended.position_cases hi with rfl | ⟨t, ht, -⟩
  · have hbefore : front[front.length - 1]? = some front[front.length - 1] :=
      List.getElem?_eq_getElem (by omega)
    refine ⟨front.length, Nat.le_refl _, fun hlt => hlt, Nat.le_refl _, ?_, ?_⟩
    · rw [List.drop_length, resume]
    · exact (goes_advance_last h hbefore (by omega)).bind (goes_passOver_last h)
  · obtain ⟨k, hik, hk, hresume, hgoes⟩ :=
      goes_passOver h ht (show front.length ≤ more + (i + 1) by omega)
    exact ⟨k, Nat.le_of_lt hik, fun _ => hik, hk, hresume, (goes_advance_front h ht).bind hgoes⟩

end Recovery

/-! ### Declarations -/

section Declarations

variable {tokens front rest : List Token} {last : Token} {i levels rounds : Nat} {s : Stmt}
  {x : Expectation} (h : Ended tokens front last) (hrounds : front.length < rounds)

include h

/-- A declaration is noted when it is over, whether it has been found or passed over. -/
theorem goes_declaration {found : Option Stmt} {k : Nat} {new : List SyntaxError} (hik : i < k)
    (hk : k ≤ front.length)
    (hgoes : Goes tokens (tryCatchThe Stop (do return some (← declared tokens rounds levels))
      (recover tokens rounds)) i (.ok found) k new) :
    Goes tokens (declaration tokens rounds levels) i (.ok found) k new := by
  refine Goes.get_bind fun c hc => ?_
  have hnote := Goes.note (hc ▸ hik) (h.firstEnd_eq ▸ hk)
  rw [← List.append_nil new]
  exact hgoes.bind (hnote.bind (Goes.pure found))

include hrounds

/-- A declaration that is well formed has a token. -/
theorem goes_declaration_ok (hi : i ≤ front.length)
    (hread : (Grammar.statement levels).read (front.drop i) = .ok (s, rest)) :
    ∃ k, i < k ∧ k ≤ front.length ∧ front.drop k = rest ∧
      Goes tokens (declaration tokens rounds levels) i (.ok (some s)) k [] := by
  have hdeclared := follows_declared h hrounds levels i hi
  have hlength := (Grammar.statement levels).rest_lt hread
  rw [hread] at hdeclared
  cases hdeclared with
  | @ok _ k hk hgoes =>
      have hik : i < k := by
        rw [List.length_drop, List.length_drop] at hlength
        omega
      have hfound : Goes tokens (do return some (← declared tokens rounds levels)) i
          (.ok (some s)) k [] := hgoes.bind (Goes.pure (some s))
      exact ⟨k, hik, hk, rfl, goes_declaration h hik hk hfound.tryCatch_ok⟩

/-- So has one that is not. The mistake is reported and passed over. -/
theorem goes_declaration_mismatch (hi : i < front.length)
    (hread : (Grammar.statement levels).read (front.drop i) = .error (.mismatch rest x)) :
    ∃ k, i < k ∧ k ≤ front.length ∧ front.drop k = resume rest ∧
      Goes tokens (declaration tokens rounds levels) i (.ok none) k
        [{ token := rest.headD last, expected := x }] := by
  have hdeclared := follows_declared h hrounds levels i (Nat.le_of_lt hi)
  have hlength := (Grammar.statement levels).mismatch_le hread
  rw [hread] at hdeclared
  cases hdeclared with
  | @mismatch j _ hj hgoes =>
      rw [List.length_drop, List.length_drop] at hlength
      obtain ⟨k, hjk, hlt, hk, hresume, hsynchronize⟩ := goes_synchronize h hrounds hj (by omega)
      have hik : i < k := by omega
      have hfound : Goes tokens (do return some (← declared tokens rounds levels)) i
          (.error .mismatch) j [{ token := (front.drop j).headD last, expected := x }] :=
        hgoes.bind_error
      have hrecover : Goes tokens (recover tokens rounds .mismatch) j (.ok none) k [] :=
        hsynchronize.bind (Goes.pure none)
      exact ⟨k, hik, hk, hresume, goes_declaration h hik hk (hfound.tryCatch_error hrecover)⟩

theorem goes_declaration_tooDeep (hi : i ≤ front.length)
    (hread : (Grammar.statement levels).read (front.drop i) = .error .tooDeep) :
    ∃ k ≤ front.length,
      Goes tokens (declaration tokens rounds levels) i (.error .tooDeep) k [] := by
  have hdeclared := follows_declared h hrounds levels i hi
  rw [hread] at hdeclared
  cases hdeclared with
  | @tooDeep k hk hgoes =>
      refine ⟨k, hk, Goes.get_bind fun c hc => ?_⟩
      have hfound : Goes tokens (do return some (← declared tokens rounds levels)) i
          (.error .tooDeep) k [] := hgoes.bind_error
      have hrecover : Goes tokens (recover tokens rounds .tooDeep) k (.error .tooDeep) k [] :=
        Goes.throw .tooDeep
      exact (hfound.tryCatch_error hrecover).bind_error

end Declarations

/-! ### Programs -/

/-- What the declarations of a program come to, behind the statements found before. -/
def outcome (found : List Stmt) (p : Program) : Except Stop (List Stmt) :=
  if p.tooDeep then .error .tooDeep else .ok (found ++ p.statements)

section Programs

variable {tokens front ts : List Token} {last : Token} {i : Nat} {found : List Stmt} {s : Stmt}
  {p : Program}

theorem outcome_cons_statement :
    outcome found (p.cons (.statement s)) = outcome (found ++ [s]) p := by
  cases hp : p.tooDeep <;> simp [outcome, hp]

theorem outcome_cons_mistake {e : SyntaxError} :
    outcome found (p.cons (.mistake e)) = outcome found p := by
  cases hp : p.tooDeep <;> simp [outcome, hp]

variable {rounds : Nat} (h : Ended tokens front last) (hrounds : front.length < rounds)

include h hrounds

/-- The declarations from a position on are the parts of the tokens there, and reading ends with
the last of them unless one is nested too deeply. -/
theorem goes_statements (levels : Nat) {more : Nat} (found : List Stmt) (hi : i ≤ front.length)
    (hmore : front.length ≤ more + i) (hts : front.drop i = ts) :
    ∃ k ≤ front.length,
      ((Program.ofTokensBefore last levels ts).tooDeep = false → k = front.length) ∧
        Goes tokens (statements tokens rounds levels (more + 1) found) i
          (outcome found (Program.ofTokensBefore last levels ts)) k
          (Program.ofTokensBefore last levels ts).errors := by
  fun_induction Program.ofTokensBefore last levels ts generalizing i found more with
  | case1 =>
      obtain rfl : i = front.length := Nat.le_antisymm hi (List.drop_eq_nil_iff.mp hts)
      refine ⟨front.length, hi, fun _ => rfl, ?_⟩
      have hnothing : outcome found { parts := [], tooDeep := false } = .ok found :=
        congrArg Except.ok (List.append_nil found)
      rw [statements, hnothing]
      exact (goes_isAtEnd_last h).bind (Goes.pure found)
  | case2 t ts s rest hread ih =>
      obtain ⟨ht, -, -⟩ := Ended.of_drop_eq_cons hts
      rw [← hts] at hread
      obtain ⟨j, hij, hj, hrest, hdeclaration⟩ := goes_declaration_ok h hrounds hi hread
      obtain ⟨more, rfl⟩ : ∃ fewer, more = fewer + 1 := ⟨more - 1, by omega⟩
      obtain ⟨k, hk, hend, hgoes⟩ :=
        ih (found ++ [s]) hj (show front.length ≤ more + j by omega) hrest
      refine ⟨k, hk, hend, ?_⟩
      rw [statements, outcome_cons_statement]
      exact (goes_isAtEnd_front h ht).bind (hdeclaration.bind hgoes)
  | case3 t ts rest x hread e =>
      rename_i ih
      obtain ⟨ht, -, hlt⟩ := Ended.of_drop_eq_cons hts
      rw [← hts] at hread
      obtain ⟨j, hij, hj, hrest, hdeclaration⟩ := goes_declaration_mismatch h hrounds hlt hread
      obtain ⟨more, rfl⟩ : ∃ fewer, more = fewer + 1 := ⟨more - 1, by omega⟩
      obtain ⟨k, hk, hend, hgoes⟩ :=
        ih found hj (show front.length ≤ more + j by omega) hrest
      refine ⟨k, hk, hend, ?_⟩
      rw [statements, outcome_cons_mistake]
      exact (goes_isAtEnd_front h ht).bind (hdeclaration.bind hgoes)
  | case4 t ts hread =>
      obtain ⟨ht, -, -⟩ := Ended.of_drop_eq_cons hts
      rw [← hts] at hread
      obtain ⟨k, hk, hdeclaration⟩ := goes_declaration_tooDeep h hrounds hi hread
      refine ⟨k, hk, fun hdeep => by contradiction, ?_⟩
      rw [statements]
      exact (goes_isAtEnd_front h ht).bind hdeclaration.bind_error

end Programs

end Reading

/-- The first mark for the end splits the tokens. -/
theorem ended_of_mem {tokens : List Token} {last : Token} (hlast : last ∈ tokens)
    (hkind : last.kind = .endOfText) :
    Ended tokens (tokens.takeWhile fun t => t.kind != .endOfText) (Program.lastOf tokens) := by
  have hfound : (tokens.find? fun t => t.kind == .endOfText).isSome :=
    List.find?_isSome.mpr ⟨last, hlast, beq_iff_eq.mpr hkind⟩
  obtain ⟨t, ht⟩ := Option.isSome_iff_exists.mp hfound
  obtain ⟨hend, front, behind, htokens, hfront⟩ := List.find?_eq_some_iff_append.mp ht
  have hends : t.kind = .endOfText := beq_iff_eq.mp hend
  have hlastOf : Program.lastOf tokens = t := by rw [Program.lastOf, ht, Option.getD_some]
  have hunended : ∀ u ∈ front, (u.kind != .endOfText) = true := hfront
  have hbefore : tokens.takeWhile (fun t => t.kind != .endOfText) = front := by
    rw [htokens, List.takeWhile_append_of_pos hunended]
    simp [hends]
  rw [hlastOf, hbefore]
  exact {
    unended := fun u hu => bne_iff_ne.mp (hunended u hu)
    kind_last := hends
    tokens_eq := ⟨behind, htokens⟩ }

namespace Reading

/-- Reading all the tokens of a list that ends the text comes to an end: no loop makes more rounds
than there are tokens. It ends well unless the nesting is too deep: no mismatch is left over. What
is found and what is reported is what the grammar says. Every look-up stands up to the first end
and inside of the list, and every declaration takes a token at least. -/
theorem parse_makes_progress (tokens : List Token) (levels rounds : Nat)
    (hlast : ∃ last ∈ tokens.getLast?, last.kind = .endOfText) (hrounds : tokens.length ≤ rounds) :
    ∃ (result : Except Stop (List Stmt)) (c : Cursor),
      (parse tokens rounds levels).run.run {} = (result, c) ∧
      result = outcome [] (Program.ofTokens levels tokens) ∧
      c.reported = (Program.ofTokens levels tokens).errors ∧
      c.current ≤ firstEnd tokens ∧
      ((Program.ofTokens levels tokens).tooDeep = false → c.current = firstEnd tokens) ∧
      (∀ current index, Event.lookUp current index ∈ c.events →
        current ≤ firstEnd tokens ∧ 0 ≤ index ∧ index < tokens.length) ∧
      (∀ start stop, Event.declaration start stop ∈ c.events →
        start < stop ∧ stop ≤ firstEnd tokens) ∧
      (tokens.length ≤ levels → (Program.ofTokens levels tokens).tooDeep = false) := by
  obtain ⟨last, hmem, hkind⟩ := hlast
  have h := ended_of_mem (List.mem_of_getLast? hmem) hkind
  have hlength := h.length_lt
  obtain ⟨more, rfl⟩ : ∃ more, rounds = more + 1 := ⟨rounds - 1, by omega⟩
  obtain ⟨k, hk, hend, hgoes⟩ := goes_statements h (Nat.lt_of_lt_of_le hlength hrounds) levels []
    (Nat.zero_le _) (show _ ≤ more + 0 by omega) rfl
  obtain ⟨c, hrun, hsound, hc, hreported⟩ := hgoes {} (fun _ he => nomatch he) rfl
  refine ⟨_, c, hrun, rfl, hreported, ?_, fun hdeep => ?_, fun _ _ he => hsound _ he,
    fun _ _ he => hsound _ he, fun hlevels =>
      Program.tooDeep_eq_false (Nat.lt_of_lt_of_le hlength hlevels)⟩
  · rw [hc, h.firstEnd_eq]
    exact hk
  · rw [hc, h.firstEnd_eq]
    exact hend hdeep

/-- A stray parenthesis, and an end before the last one. -/
def strayTokens : List Token :=
  [word .rightParen ")", word .endOfText "", word .varWord "var", word .endOfText ""]

theorem parse_makes_progress_past_mistake :
    ∃ c : Cursor, (parse strayTokens 4 4).run.run {} = (.ok [], c) ∧ c.current = 1 ∧
      c.reported.map SyntaxError.message = ["at ')': Expect expression."] := by
  obtain ⟨result, c, hrun, rfl, hreported, -, hend, -, -, hdeep⟩ :=
    parse_makes_progress strayTokens 4 4 ⟨word .endOfText "", rfl, rfl⟩ (by decide)
  have hshallow := hdeep (by decide)
  have hstatements : (Program.ofTokens 4 strayTokens).statements = [] := by
    have hnone : (Program.ofTokens 4 strayTokens).statements.length = 0 := by decide +kernel
    exact List.length_eq_zero_iff.mp hnone
  refine ⟨c, ?_, (hend hshallow).trans (by decide), ?_⟩
  · rw [hrun, outcome, if_neg (by rw [hshallow]; decide), hstatements, List.append_nil]
  · rw [hreported]
    decide +kernel

end Reading

end MiniLox.Grammar
