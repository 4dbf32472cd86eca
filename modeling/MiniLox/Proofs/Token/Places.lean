import MiniLox.Proofs.Text.Lines
import MiniLox.Proofs.Token.Split

/-!
Where the tokens of a text stand. A token is cut from the text at the place
of its item. Its column counts from the start of the line in which the item
starts, and its line is that in which the item ends; only strings reach over
more than one line.
-/

namespace MiniLox

namespace Lexeme

theorem Split.flatMap_eq {items : List (Lexeme × List Char)} {s : List Char}
    (h : Split items s) : items.flatMap Prod.snd = s := by
  induction h with
  | nil => rfl
  | cons hspells hlongest hrest ih => rw [List.flatMap_cons, ih]

/-- But for strings, items are made of the characters of words and of symbols. -/
theorem Spells.forall_mem {accepts : Char → Bool} {kind : Kind} {literal : Option Value}
    {u : List Char} (h : Spells (.token kind literal) u) (hkind : kind ≠ .string)
    (hword : ∀ c, isWordPart c = true → accepts c = true)
    (hsymbols : (symbols.all fun entry => entry.1.all accepts) = true) :
    ∀ c ∈ u, accepts c = true := by
  have hsymbol {text : List Char} {k : Kind} (hmem : (text, k) ∈ symbols) :
      ∀ c ∈ text, accepts c = true :=
    List.all_eq_true.mp (List.all_eq_true.mp hsymbols _ hmem)
  have hdigit (c : Char) (hc : isDigit c = true) : accepts c = true :=
    hword c (by simp [isWordPart, hc])
  have hletter (c : Char) (hc : isLetter c = true) : accepts c = true :=
    hword c (by simp [isWordPart, hc])
  cases h with
  | symbol h => exact hsymbol h
  | keyword h =>
      obtain ⟨d, ds, hword', hd, hds⟩ := exists_toList_eq_of_mem_keywords h
      rw [hword']
      exact List.forall_mem_cons.mpr ⟨hletter d hd, fun c hc => hword c (hds c hc)⟩
  | identifier hd hds hkeyword =>
      exact List.forall_mem_cons.mpr ⟨hletter _ hd, fun c hc => hword c (hds c hc)⟩
  | whole hne h => exact fun c hc => hdigit c (h c hc)
  | fractional hwhole hfraction h =>
      have hpoint : accepts '.' = true :=
        hsymbol (show (['.'], Kind.dot) ∈ symbols by decide) '.' (List.mem_cons_self ..)
      obtain ⟨hw, hf⟩ := List.forall_mem_append.mp h
      refine List.forall_mem_append.mpr ⟨fun c hc => hdigit c (hw c hc), ?_⟩
      exact List.forall_mem_cons.mpr ⟨hpoint, fun c hc => hdigit c (hf c hc)⟩
  | string h => contradiction

/-- Only strings hold characters that neither words nor symbols are made of. -/
theorem Spells.not_mem {mark : Char} {kind : Kind} {literal : Option Value} {u : List Char}
    (h : Spells (.token kind literal) u) (hkind : kind ≠ .string)
    (hword : isWordPart mark = false)
    (hsymbols : (symbols.all fun entry => entry.1.all (· != mark)) = true) : mark ∉ u := by
  have hne (c : Char) (hc : isWordPart c = true) : (c != mark) = true := by
    rw [bne_iff_ne]
    rintro rfl
    rw [hword] at hc
    contradiction
  exact fun hmem => bne_iff_ne.mp (h.forall_mem hkind hne hsymbols _ hmem) rfl

/-- Only strings hold newlines. -/
theorem Spells.newline_not_mem {kind : Kind} {literal : Option Value} {u : List Char}
    (h : Spells (.token kind literal) u) (hkind : kind ≠ .string) : '\n' ∉ u :=
  h.not_mem hkind (by decide) (by decide)

end Lexeme

namespace Token

open Lexeme Text

variable {source before : List Char} {t : Token}

/-- The token is made of an item of the text that has some characters before
it. -/
def CutFrom (source before : List Char) (t : Token) : Prop :=
  ∃ earlier item later, Split (earlier ++ item :: later) source ∧
    earlier.flatMap Prod.snd = before ∧ stamp? (({} : Position).advance before) item = some t

/-- The token stands in a line of a text, with some characters of the line to
its left and to its right. -/
structure StandsIn (above left right below : List Char) (t : Token) : Prop where
  isLine : IsLine above (left ++ t.lexeme.toList ++ right) below
  line : t.line = ((above.count '\n' + 1 : Nat) : Int)
  column : t.column = (left.length : Int)

theorem mem_ofItems_cases {start : Position} {items : List (Lexeme × List Char)}
    (ht : t ∈ ofItems start items) :
    (∃ p, t = atEnd p) ∨ ∃ earlier item later, items = earlier ++ item :: later ∧
      stamp? (start.advance (earlier.flatMap Prod.snd)) item = some t := by
  induction items generalizing start with
  | nil => exact .inl ⟨start, by simpa [ofItems] using ht⟩
  | cons item items ih =>
      rw [ofItems] at ht
      rcases List.mem_append.mp ht with ht | ht
      · exact .inr ⟨[], item, items, rfl, by simpa using ht⟩
      · rcases ih ht with hend | ⟨earlier, other, later, rfl, hstamp⟩
        · exact .inl hend
        · refine .inr ⟨item :: earlier, other, later, rfl, ?_⟩
          rw [List.flatMap_cons, Position.advance_append]
          exact hstamp

/-- A token of a text closes the text or is cut from it. -/
theorem mem_scan_cases {text : String} {tokens : List Token} (hscan : scan text = .ok tokens)
    (ht : t ∈ tokens) : (∃ p, t = atEnd p) ∨ ∃ before, t.CutFrom text.toList before := by
  obtain ⟨items, hsplit, rfl⟩ := scanFrom_eq_ok_iff.mp hscan
  rcases mem_ofItems_cases ht with hend | ⟨earlier, item, later, rfl, hstamp⟩
  · exact .inl hend
  · exact .inr ⟨_, earlier, item, later, hsplit, rfl, hstamp⟩

theorem exists_cutFrom {text : String} {tokens : List Token} (hscan : scan text = .ok tokens)
    (ht : t ∈ tokens) (hkind : t.kind ≠ .endOfText) : ∃ before, t.CutFrom text.toList before := by
  rcases mem_scan_cases hscan ht with ⟨p, rfl⟩ | hcut
  · contradiction
  · exact hcut

theorem stamp?_eq_some_iff {start : Position} {item : Lexeme × List Char} :
    stamp? start item = some t ↔
      item = (.token t.kind t.literal, t.lexeme.toList) ∧
        t.line = ((start.advance t.lexeme.toList).line : Int) ∧
          t.column = (start.column : Int) := by
  obtain ⟨lexeme, covered⟩ := item
  obtain ⟨kind, text, literal, line, column⟩ := t
  cases lexeme with
  | blank => simp [stamp?]
  | comment => simp [stamp?]
  | token k l =>
      simp only [stamp?, Option.some.injEq, Token.mk.injEq, Prod.mk.injEq, Lexeme.token.injEq]
      constructor
      · rintro ⟨rfl, rfl, rfl, rfl, rfl⟩
        simp
      · rintro ⟨⟨⟨rfl, rfl⟩, rfl⟩, rfl, rfl⟩
        simp

theorem CutFrom.spells (h : t.CutFrom source before) :
    Spells (.token t.kind t.literal) t.lexeme.toList := by
  obtain ⟨earlier, item, later, hsplit, -, hstamp⟩ := h
  obtain ⟨rfl, -, -⟩ := stamp?_eq_some_iff.mp hstamp
  clear hstamp
  induction earlier generalizing source with
  | nil =>
      cases hsplit with
      | cons hspells => exact hspells
  | cons first earlier ih =>
      cases hsplit with
      | cons _ _ hrest => exact ih hrest

theorem CutFrom.eq_append (h : t.CutFrom source before) :
    ∃ behind, source = before ++ t.lexeme.toList ++ behind := by
  obtain ⟨earlier, item, later, hsplit, rfl, hstamp⟩ := h
  obtain ⟨rfl, -, -⟩ := stamp?_eq_some_iff.mp hstamp
  refine ⟨later.flatMap Prod.snd, ?_⟩
  rw [← hsplit.flatMap_eq]
  simp

/-- The line of a token is that in which it ends. -/
theorem CutFrom.line_eq (h : t.CutFrom source before) :
    t.line = (((before ++ t.lexeme.toList).count '\n' + 1 : Nat) : Int) := by
  obtain ⟨earlier, item, later, -, -, hstamp⟩ := h
  obtain ⟨-, hline, -⟩ := stamp?_eq_some_iff.mp hstamp
  rw [hline, ← Position.advance_append, Position.line_advance, Nat.add_comm]

/-- A token without newlines stands in one line of the text, where it is cut
from the text. -/
theorem CutFrom.exists_standsIn_of_not_mem (h : t.CutFrom source before)
    (hnewline : '\n' ∉ t.lexeme.toList) :
    ∃ above left right below, before = above ++ left ∧
      source = above ++ (left ++ t.lexeme.toList ++ right) ++ below ∧
        t.StandsIn above left right below := by
  obtain ⟨behind, hsource⟩ := h.eq_append
  obtain ⟨earlier, item, later, -, -, hstamp⟩ := h
  obtain ⟨-, hline, hcolumn⟩ := stamp?_eq_some_iff.mp hstamp
  obtain ⟨above, left, right, below, rfl, rfl, hisLine⟩ := exists_isLine hnewline before behind
  have hleft : '\n' ∉ left := fun hmem => hisLine.newline_not_mem (by simp [hmem])
  refine ⟨above, left, right, below, rfl, by rw [hsource]; simp, hisLine, ?_, ?_⟩
  · rw [hline, ← Position.advance_append, Position.line_advance, List.append_assoc,
      List.count_append, List.count_append, List.count_eq_zero.mpr hleft,
      List.count_eq_zero.mpr hnewline]
    show ((1 + (above.count '\n' + (0 + 0)) : Nat) : Int) = _
    rw [Nat.add_comm]
  · rw [hcolumn, Position.column_advance hleft hisLine.above_ends]

/-- A token that is no string has no newlines. -/
theorem CutFrom.exists_standsIn (h : t.CutFrom source before) (hkind : t.kind ≠ .string) :
    ∃ above left right below, before = above ++ left ∧
      source = above ++ (left ++ t.lexeme.toList ++ right) ++ below ∧
        t.StandsIn above left right below :=
  h.exists_standsIn_of_not_mem (h.spells.newline_not_mem hkind)

end Token

end MiniLox
