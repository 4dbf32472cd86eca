import MiniLox.Proofs.Grammar.Runs

/-!
Which programs are without a mistake: those whose tokens are derived by the
grammar, and what they are made into are the trees of the derivation.
-/

namespace MiniLox.Grammar

namespace Program

variable {last : Token} {levels : Nat} {ts : List Token} {S : List Stmt}

/-- Without a mistake every part has a derivation. -/
theorem derives_of_errors_eq_nil (hdeep : (ofTokensBefore last levels ts).tooDeep = false)
    (herrors : (ofTokensBefore last levels ts).errors = []) :
    Derives ts (ofTokensBefore last levels ts).statements := by
  fun_induction ofTokensBefore last levels ts with
  | case1 => exact ⟨[], rfl, rfl⟩
  | case2 t ts s rest hread ih =>
      obtain ⟨d, hd, rfl⟩ := statement_sound hread
      obtain ⟨ds, hds, hS⟩ := ih hdeep herrors
      refine ⟨d :: ds, ?_, ?_⟩
      · rw [List.flatMap_cons, hds, hd]
      · rw [List.map_cons, hS, statements_cons_statement]
  | case3 t ts rest x hread error ih =>
      rw [errors_cons_mistake] at herrors
      contradiction
  | case4 => contradiction

/-- Declarations are read one after the other. -/
theorem accepts_of_derives (h : Derives ts S)
    (hdeep : (ofTokensBefore last levels ts).tooDeep = false) :
    (ofTokensBefore last levels ts).errors = [] ∧
      (ofTokensBefore last levels ts).statements = S := by
  obtain ⟨ds, rfl, rfl⟩ := h
  induction ds with
  | nil =>
      rw [List.flatMap_nil, ofTokensBefore_nil]
      exact ⟨rfl, rfl⟩
  | cons d ds ih =>
      rw [List.flatMap_cons] at hdeep ⊢
      rcases statement_complete levels d (ds.flatMap Declaration.tokens) with hread | hread
      · rw [ofTokensBefore_of_ok hread] at hdeep ⊢
        obtain ⟨herrors, hstatements⟩ := ih hdeep
        refine ⟨herrors, ?_⟩
        rw [statements_cons_statement, hstatements, List.map_cons]
      · have hne : d.tokens ++ ds.flatMap Declaration.tokens ≠ [] :=
          List.append_ne_nil_of_left_ne_nil d.tokens_ne_nil _
        rw [ofTokensBefore_of_tooDeep hne hread] at hdeep
        contradiction

theorem unended_of_derives (h : Derives ts S) : Unended ts := by
  obtain ⟨ds, rfl, -⟩ := h
  intro t ht
  obtain ⟨d, -, ht⟩ := List.mem_flatMap.mp ht
  exact d.unended t ht

/-- The programs without a mistake are those that the grammar derives, and
their statements are those of the derivation. There is one derivation at
most; its trees are layered; and the tokens that spell layered trees are made
into these trees again. -/
theorem accepts_exactly_derived (levels : Nat) :
    (∀ (ts : List Token) (last : Token), Unended ts → last.kind = .endOfText →
      (ofTokens levels (ts ++ [last])).tooDeep = false →
        ∀ S : List Stmt,
          (ofTokens levels (ts ++ [last])).errors = [] ∧
            (ofTokens levels (ts ++ [last])).statements = S ↔
            Derives ts S) ∧
      (∀ ds es : List Declaration,
        ds.flatMap Declaration.tokens = es.flatMap Declaration.tokens → ds = es) ∧
      (∀ (ts : List Token) (S : List Stmt),
        Derives ts S ↔ (∀ s ∈ S, s.Layered) ∧ Stmt.AllSpelledBy S ts) ∧
      ∀ S : List Stmt, (∀ s ∈ S, s.Layered) →
        (∃ ts, Stmt.AllSpelledBy S ts) ∧
          ∀ (ts : List Token) (last : Token), Stmt.AllSpelledBy S ts → last.kind = .endOfText →
            (ofTokens levels (ts ++ [last])).tooDeep = false →
              (ofTokens levels (ts ++ [last])).errors = [] ∧
                (ofTokens levels (ts ++ [last])).statements = S := by
  refine ⟨?_, fun _ _ => Declaration.eq_of_flatMap_tokens, fun _ _ => derives_iff, ?_⟩
  · intro ts last hts hlast hdeep S
    rw [ofTokens_append_last hts hlast] at hdeep ⊢
    constructor
    · rintro ⟨herrors, rfl⟩
      exact derives_of_errors_eq_nil hdeep herrors
    · exact fun h => accepts_of_derives h hdeep
  · intro S hS
    refine ⟨Stmt.exists_allSpelledBy hS, fun ts last hspelled hlast hdeep => ?_⟩
    have hderives : Derives ts S := derives_iff.mpr ⟨hS, hspelled⟩
    rw [ofTokens_append_last (unended_of_derives hderives) hlast] at hdeep ⊢
    exact accepts_of_derives hderives hdeep

/-- The tokens of `a - b - c;`. -/
def subtractions : List Token :=
  [word .identifier "a", word .minus "-", word .identifier "b", word .minus "-",
    word .identifier "c", word .semicolon ";"]

/-- The tree that takes `c` from the difference of `a` and `b`. -/
def subtractionsTree : Stmt where
  form := .expression
  expr := .binary
    (.binary (.name (word .identifier "a")) (word .minus "-") (.name (word .identifier "b")))
    (word .minus "-") (.name (word .identifier "c"))

theorem accepts_subtractions :
    subtractionsTree.Layered ∧ Stmt.AllSpelledBy [subtractionsTree] subtractions ∧
      (ofTokens 4 (subtractions ++ [word .endOfText ""])).tooDeep = false ∧
      (ofTokens 4 (subtractions ++ [word .endOfText ""])).errors = [] ∧
      (ofTokens 4 (subtractions ++ [word .endOfText ""])).statements = [subtractionsTree] := by
  have hlayered : subtractionsTree.Layered :=
    ⟨trivial, rfl, ⟨rfl, rfl, rfl, by decide, by decide⟩, rfl, by decide, by decide⟩
  have hspelled : Stmt.AllSpelledBy [subtractionsTree] subtractions :=
    .cons (.expression ⟨word .semicolon ";", rfl⟩
      (.binary _ (.binary _ (.name _) (.name _)) (.name _))) .nil
  have hdeep : (ofTokens 4 (subtractions ++ [word .endOfText ""])).tooDeep = false := by
    decide +kernel
  refine ⟨hlayered, hspelled, hdeep, ?_⟩
  have hS : ∀ s ∈ [subtractionsTree], s.Layered := by simpa using hlayered
  exact ((accepts_exactly_derived 4).2.2.2 _ hS).2 _ _ hspelled rfl hdeep

end Program

end MiniLox.Grammar
