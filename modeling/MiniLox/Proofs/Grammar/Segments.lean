import MiniLox.Proofs.Grammar.Runs

/-!
What becomes of a text with mistakes in it. Its tokens fall into segments
that follow one another. A segment is a declaration or holds one mistake. In
the second case the mistake is noticed at the first token with which no
declaration can go on, and the segment reaches up to the next place where a
statement is taken to start.

Places are counted from the first token of the text. The token that ends the
text has a place as well, for a mistake may be noticed there.
-/

namespace MiniLox.Grammar

/-- The words that say where a mistake is. -/
def mention (t : Token) : String :=
  if t.kind = .endOfText then "at end" else "at '" ++ t.lexeme ++ "'"

/-- A statement is taken to start at a place behind another token: the text
ends there, a keyword that starts a statement stands there, or a semicolon
stands right before it. -/
def Resumes (tokens : List Token) (place : Nat) : Prop :=
  (∃ t ∈ tokens[place]?, t.kind = .endOfText ∨ t.kind.startsStatement = true) ∨
    ∃ t ∈ tokens[place - 1]?, t.kind = .semicolon

/-- The tokens from one place up to another, and what was made of them. -/
structure Segment where
  start : Nat
  stop : Nat
  part : Part

namespace Segment

/-- The segments follow one another from one place to another, and none of
them is empty. -/
def Cover : List Segment → (start stop : Nat) → Prop
  | [], start, stop => start = stop
  | s :: rest, start, stop => s.start = start ∧ start < s.stop ∧ Cover rest s.stop stop

/-- The tokens of the segment are a declaration, and it was read. -/
def OfDeclaration (tokens : List Token) (s : Segment) : Prop :=
  ∃ d : Declaration, tokens.extract s.start s.stop = d.tokens ∧ s.part = .statement d.stmt

/-- The segment holds one mistake, noticed at a token at some place. -/
structure OfMistake (tokens : List Token) (s : Segment) (place : Nat) (t : Token)
    (error : SyntaxError) : Prop where
  part : s.part = .mistake error
  start_le : s.start ≤ place
  token : tokens[place]? = some t
  viable : Viable (tokens.extract s.start place)
  not_viable : ¬Viable (tokens.extract s.start (place + 1))
  line : error.line = t.line
  message : ∃ text, error.message = mention t ++ text
  stop_of_end : t.kind = .endOfText → s.stop = place
  lt_stop : t.kind ≠ .endOfText → place < s.stop
  resumes : t.kind ≠ .endOfText → Resumes tokens s.stop
  not_resumes : t.kind ≠ .endOfText → ∀ i, place < i → i < s.stop → ¬Resumes tokens i

end Segment

/-! ### Places in a part of a text -/

section Places

variable {us vs ts : List Token} {t last : Token}

theorem extract_append (us vs ws : List Token) :
    (us ++ (vs ++ ws)).extract us.length (us.length + vs.length) = vs := by
  rw [List.extract_eq_take_drop]
  simp

theorem resumes_append (us : List Token) {i : Nat} (hi : 0 < i) :
    Resumes (us ++ vs) (us.length + i) ↔ Resumes vs i := by
  have hplace : (us ++ vs)[us.length + i]? = vs[i]? := by
    rw [List.getElem?_append_right (by omega), Nat.add_sub_cancel_left]
  have hbefore : (us ++ vs)[us.length + i - 1]? = vs[i - 1]? := by
    rw [List.getElem?_append_right (by omega)]
    congr 1
    omega
  rw [Resumes, Resumes, hplace, hbefore]

theorem resumes_cons {i : Nat} (hi : 0 < i) : Resumes (t :: ts) (i + 1) ↔ Resumes ts i := by
  rw [Nat.add_comm]
  exact resumes_append [t] hi

theorem resumes_one :
    Resumes (t :: ts) 1 ↔ (∃ u ∈ ts.head?, u.kind = .endOfText) ∨ StartsBehind t ts := by
  cases ts with
  | nil => simp [Resumes, StartsBehind]
  | cons u us =>
      simp only [Resumes, StartsBehind, List.getElem?_cons_succ, List.getElem?_cons_zero,
        Nat.sub_self, Option.mem_some, exists_eq_left', List.head?_cons]
      constructor
      · rintro ((hend | hstarts) | hsemicolon)
        · exact .inl hend
        · exact .inr (.inr hstarts)
        · exact .inr (.inl hsemicolon)
      · rintro (hend | hsemicolon | hstarts)
        · exact .inl (.inl hend)
        · exact .inr hsemicolon
        · exact .inl (.inr hstarts)

/-- The search for the next start of a statement passes over some tokens, and
ends at the first place behind the offending token that will do. -/
theorem exists_resume (hts : Unended (t :: ts)) (hlast : last.kind = .endOfText) :
    ∃ skipped, skipped ++ resume (t :: ts) = t :: ts ∧ 0 < skipped.length ∧
      Resumes (t :: ts ++ [last]) skipped.length ∧
        ∀ i, 0 < i → i < skipped.length → ¬Resumes (t :: ts ++ [last]) i := by
  induction ts generalizing t with
  | nil =>
      refine ⟨[t], by simp [resume], by simp, ?_, fun i hi hlt => ?_⟩
      · exact .inl ⟨last, rfl, .inl hlast⟩
      · rw [List.length_singleton] at hlt
        omega
  | cons u us ih =>
      have hhead : StartsBehind t (u :: us ++ [last]) ↔ StartsBehind t (u :: us) := Iff.rfl
      by_cases ht : StartsBehind t (u :: us)
      · refine ⟨[t], ?_, by simp, ?_, fun i hi hlt => ?_⟩
        · rw [resume_of_startsBehind ht, List.singleton_append]
        · exact resumes_one.mpr (.inr (hhead.mpr ht))
        · rw [List.length_singleton] at hlt
          omega
      · have htail : Unended (u :: us) := hts.of_suffix (List.suffix_cons t _)
        obtain ⟨skipped, happ, hpos, hstop, hleast⟩ := ih htail
        refine ⟨t :: skipped, ?_, by simp, (resumes_cons hpos).mpr hstop, fun i hi hlt => ?_⟩
        · rw [resume_of_not_startsBehind ht, List.cons_append, happ]
        · rw [List.length_cons] at hlt
          obtain rfl | ⟨j, hj, rfl⟩ : i = 1 ∨ ∃ j, 0 < j ∧ i = j + 1 := by
            rcases Nat.eq_or_lt_of_le (Nat.succ_le_of_lt hi) with h | h
            · exact .inl h.symm
            · exact .inr ⟨i - 1, by omega, by omega⟩
          · intro hone
            rcases resumes_one.mp hone with ⟨v, hv, hend⟩ | hstarts
            · obtain rfl : u = v := by simpa using hv
              exact htail u (List.mem_cons_self ..) hend
            · exact ht (hhead.mp hstarts)
          · intro hplace
            exact hleast j hj (by omega) ((resumes_cons hj).mp hplace)

end Places

/-! ### The segments of a text -/

theorem SyntaxError.message_eq (error : SyntaxError) :
    error.message = mention error.token ++ (": " ++ error.expected.message) := by
  rw [← String.append_assoc]
  rfl

section Segments

variable {levels : Nat} {before ts rest : List Token} {last : Token} {x : Expectation}

/-- A text does not go on behind its end. -/
theorem not_viable_append_end (hlast : last.kind = .endOfText) : ¬Viable (ts ++ [last]) := by
  rintro ⟨d, hd⟩
  exact d.unended last (hd.subset (by simp)) hlast

theorem Segment.ofDeclaration (before : List Token) (d : Declaration) (rest : List Token) :
    Segment.OfDeclaration (before ++ (d.tokens ++ rest))
      ⟨before.length, before.length + d.tokens.length, .statement d.stmt⟩ :=
  ⟨d, extract_append before d.tokens rest, rfl⟩

/-- A mistake that is noticed at the end of the text. -/
theorem Segment.ofMistake_end (hlast : last.kind = .endOfText)
    (hread : (statement levels).read ts = .error (.mismatch [] x)) :
    Segment.OfMistake (before ++ (ts ++ [last]))
      ⟨before.length, before.length + ts.length, .mistake ⟨last, x⟩⟩
      (before.length + ts.length) last ⟨last, x⟩ := by
  obtain ⟨u, hu, hviable⟩ := statement_viable hread
  rw [List.append_nil] at hu
  have htoken : (before ++ (ts ++ [last]))[before.length + ts.length]? = some last := by
    rw [List.getElem?_append_right (by omega), List.getElem?_append_right (by omega)]
    simp
  have hall : (before ++ (ts ++ [last])).extract before.length (before.length + ts.length + 1) =
      ts ++ [last] := by
    have h := extract_append before (ts ++ [last]) []
    rwa [List.append_nil, List.length_append] at h
  exact {
    part := rfl
    start_le := Nat.le_add_right _ _
    token := htoken
    viable := by
      rw [extract_append, ← hu]
      exact hviable
    not_viable := by
      rw [hall]
      exact not_viable_append_end hlast
    line := rfl
    message := ⟨_, SyntaxError.message_eq _⟩
    stop_of_end := fun _ => rfl
    lt_stop := fun h => absurd hlast h
    resumes := fun h => absurd hlast h
    not_resumes := fun h => absurd hlast h }

/-- A mistake that is noticed at another token. -/
theorem Segment.exists_ofMistake {t : Token} (before : List Token) (hts : Unended ts)
    (hlast : last.kind = .endOfText)
    (hread : (statement levels).read ts = .error (.mismatch (t :: rest) x)) :
    ∃ taken place, taken ++ resume (t :: rest) = ts ∧ taken ≠ [] ∧
      Segment.OfMistake (before ++ (ts ++ [last]))
        ⟨before.length, before.length + taken.length, .mistake ⟨t, x⟩⟩ place t ⟨t, x⟩ := by
  obtain ⟨u, rfl, hviable⟩ := statement_viable hread
  have hoffending : Unended (t :: rest) := hts.of_suffix (List.suffix_append u _)
  have hend : t.kind ≠ .endOfText := hoffending t (List.mem_cons_self ..)
  obtain ⟨skipped, happ, hpos, hstop, hleast⟩ := exists_resume hoffending hlast
  -- Places behind the offending token are counted from that token on.
  have hsplit : before ++ (u ++ t :: rest ++ [last]) = before ++ u ++ (t :: rest ++ [last]) := by
    simp
  have hplaces : ∀ i, 0 < i →
      (Resumes (before ++ (u ++ t :: rest ++ [last])) (before.length + u.length + i) ↔
        Resumes (t :: rest ++ [last]) i) := by
    intro i hi
    rw [hsplit, ← List.length_append]
    exact resumes_append (before ++ u) hi
  have htoken :
      (before ++ (u ++ t :: rest ++ [last]))[before.length + u.length]? = some t := by
    rw [hsplit, ← List.length_append, List.getElem?_append_right (Nat.le_refl _), Nat.sub_self]
    rfl
  have hbefore : (before ++ (u ++ t :: rest ++ [last])).extract before.length
      (before.length + u.length) = u := by
    rw [List.append_assoc u]
    exact extract_append before u _
  have hthrough : (before ++ (u ++ t :: rest ++ [last])).extract before.length
      (before.length + u.length + 1) = u ++ [t] := by
    have h := extract_append before (u ++ [t]) (rest ++ [last])
    simpa [Nat.add_assoc] using h
  have hlength : (u ++ skipped).length = u.length + skipped.length := List.length_append
  refine ⟨u ++ skipped, before.length + u.length, by rw [List.append_assoc, happ], ?_, {
    part := rfl
    start_le := Nat.le_add_right _ _
    token := htoken
    viable := by
      rw [hbefore]
      exact hviable
    not_viable := by
      rw [hthrough]
      exact not_viable_of_mismatch hread
    line := rfl
    message := ⟨_, SyntaxError.message_eq _⟩
    stop_of_end := fun h => absurd h hend
    lt_stop := fun _ => by
      simp only [hlength]
      omega
    resumes := fun _ => by
      simp only [hlength, ← Nat.add_assoc]
      exact (hplaces _ hpos).mpr hstop
    not_resumes := fun _ i hi hlt => by
      simp only [hlength] at hlt
      obtain ⟨j, rfl⟩ := Nat.exists_eq_add_of_lt hi
      rw [Nat.add_assoc _ j 1, hplaces (j + 1) (Nat.succ_pos j)]
      exact hleast (j + 1) (Nat.succ_pos j) (by omega) }⟩
  rintro hnil
  rw [hnil, List.length_nil] at hlength
  omega

/-- The tokens from one place up to another fall into segments with the given
parts. -/
def FallsInto (tokens : List Token) (start stop : Nat) (parts : List Part) : Prop :=
  ∃ segments : List Segment, Segment.Cover segments start stop ∧
    (∀ s ∈ segments, s.OfDeclaration tokens ∨
      ∃ place t error, s.OfMistake tokens place t error) ∧
    parts = segments.map Segment.part

/-- One segment more in front. -/
theorem FallsInto.cons {tokens taken : List Token} {stop : Nat} {part : Part} {parts : List Part}
    (htaken : taken ≠ [])
    (hsegment :
      Segment.OfDeclaration tokens ⟨before.length, before.length + taken.length, part⟩ ∨
        ∃ place t error, Segment.OfMistake tokens
          ⟨before.length, before.length + taken.length, part⟩ place t error)
    (h : FallsInto tokens (before ++ taken).length stop parts) :
    FallsInto tokens before.length stop (part :: parts) := by
  obtain ⟨segments, hcover, hall, rfl⟩ := h
  rw [List.length_append] at hcover
  have hpos : 0 < taken.length := List.length_pos_iff.mpr htaken
  refine ⟨⟨before.length, before.length + taken.length, part⟩ :: segments, ?_, ?_, rfl⟩
  · exact ⟨rfl, Nat.lt_add_of_pos_right hpos, hcover⟩
  · intro s hs
    rcases List.mem_cons.mp hs with rfl | hs
    · exact hsegment
    · exact hall s hs

/-- The segments from a place on are what the steps from there take. -/
theorem fallsInto_parts {tokens : List Token} {stop : Nat}
    (htokens : before ++ (ts ++ [last]) = tokens) (hstop : before.length + ts.length = stop)
    (hts : Unended ts) (hlast : last.kind = .endOfText)
    (hdeep : (Program.ofTokensBefore last levels ts).tooDeep = false) :
    FallsInto tokens before.length stop (Program.ofTokensBefore last levels ts).parts := by
  fun_induction Program.ofTokensBefore last levels ts generalizing before with
  | case1 => exact ⟨[], hstop, by simp, rfl⟩
  | case2 t ts s rest hread ih =>
      obtain ⟨d, hd, rfl⟩ := statement_sound hread
      rw [← hd] at htokens hstop hts
      have hsegment : Segment.OfDeclaration tokens
          ⟨before.length, before.length + d.tokens.length, .statement d.stmt⟩ := by
        rw [← htokens, List.append_assoc]
        exact Segment.ofDeclaration before d _
      refine .cons d.tokens_ne_nil (.inl hsegment)
        (ih ?_ ?_ (hts.of_suffix (List.suffix_append _ _)) hdeep)
      · rw [← htokens]
        simp
      · rw [← hstop]
        simp [Nat.add_assoc]
  | case3 t ts rest x hread error =>
      rename_i ih
      have hrest : resume rest <:+ t :: ts :=
        (resume_suffix rest).trans ((statement_local levels).suffix_of_mismatch hread)
      -- The segment is what was right so far and what the search passes over.
      obtain ⟨taken, htaken, hne, place, offending, hsegment⟩ :
          ∃ taken, taken ++ resume rest = t :: ts ∧ taken ≠ [] ∧
            ∃ place offending, Segment.OfMistake tokens
              ⟨before.length, before.length + taken.length, .mistake error⟩
              place offending error := by
        cases rest with
        | nil =>
            have hsegment : Segment.OfMistake tokens
                ⟨before.length, before.length + (t :: ts).length, .mistake error⟩
                (before.length + (t :: ts).length) last error := by
              rw [← htokens]
              exact Segment.ofMistake_end hlast hread
            exact ⟨t :: ts, List.append_nil _, List.cons_ne_nil t ts, _, last, hsegment⟩
        | cons offending others =>
            obtain ⟨taken, place, htaken, hne, hsegment⟩ :=
              Segment.exists_ofMistake before hts hlast hread
            rw [htokens] at hsegment
            exact ⟨taken, htaken, hne, place, offending, hsegment⟩
      rw [← htaken] at htokens hstop
      refine .cons hne (.inr ⟨place, offending, error, hsegment⟩)
        (ih ?_ ?_ (hts.of_suffix hrest) hdeep)
      · rw [← htokens]
        simp
      · rw [← hstop]
        simp [Nat.add_assoc]
  | case4 => contradiction

end Segments

namespace Program

theorem length_statements_add_length_errors (p : Program) :
    p.statements.length + p.errors.length = p.parts.length := by
  obtain ⟨parts, tooDeep⟩ := p
  induction parts with
  | nil => rfl
  | cons part parts ih =>
      rw [statements, errors] at ih ⊢
      cases part with
      | statement s =>
          simp only [List.filterMap_cons, List.length_cons] at ih ⊢
          omega
      | mistake e =>
          simp only [List.filterMap_cons, List.length_cons] at ih ⊢
          omega

/-- The tokens of a text before the one that ends it fall into segments that
follow one another and of which none is empty. Each is a declaration or holds
one mistake, and there is nothing among the statements and the mistakes that
is not the part of a segment. -/
theorem falls_into_segments {levels : Nat} {ts : List Token} {last : Token} (hts : Unended ts)
    (hlast : last.kind = .endOfText) (hdeep : (ofTokens levels (ts ++ [last])).tooDeep = false) :
    ∃ segments : List Segment, Segment.Cover segments 0 ts.length ∧
      (∀ s ∈ segments, s.OfDeclaration (ts ++ [last]) ∨
        ∃ place t error, s.OfMistake (ts ++ [last]) place t error) ∧
      (ofTokens levels (ts ++ [last])).parts = segments.map Segment.part ∧
      (ofTokens levels (ts ++ [last])).statements.length +
          (ofTokens levels (ts ++ [last])).errors.length =
        segments.length := by
  have hcount := length_statements_add_length_errors (ofTokens levels (ts ++ [last]))
  rw [ofTokens_append_last hts hlast] at hdeep hcount ⊢
  have hfalls : FallsInto (ts ++ [last]) ([] : List Token).length ts.length
      (ofTokensBefore last levels ts).parts :=
    fallsInto_parts rfl (Nat.zero_add _) hts hlast hdeep
  obtain ⟨segments, hcover, hall, hparts⟩ := hfalls
  refine ⟨segments, hcover, hall, hparts, ?_⟩
  rw [hcount, hparts, List.length_map]

/-- The tokens of `) a print b; c`. -/
def scraps : List Token :=
  [word .rightParen ")", word .identifier "a", word .printWord "print", word .identifier "b",
    word .semicolon ";", word .identifier "c"]

theorem falls_into_segments_scraps :
    ∃ segments : List Segment, segments.length = 3 ∧ Segment.Cover segments 0 6 ∧
      (∀ s ∈ segments, s.OfDeclaration (scraps ++ [word .endOfText ""]) ∨
        ∃ place t error, s.OfMistake (scraps ++ [word .endOfText ""]) place t error) := by
  have hdeep : (ofTokens 4 (scraps ++ [word .endOfText ""])).tooDeep = false := by decide +kernel
  have hcounts : (ofTokens 4 (scraps ++ [word .endOfText ""])).statements.length = 1 ∧
      (ofTokens 4 (scraps ++ [word .endOfText ""])).errors.length = 2 := by
    decide +kernel
  obtain ⟨segments, hcover, hall, -, hlength⟩ := falls_into_segments (by decide) rfl hdeep
  rw [hcounts.1, hcounts.2] at hlength
  exact ⟨segments, hlength.symm, hcover, hall⟩

end Program

end MiniLox.Grammar
