import MiniLox.Proofs.Token.Spelling
import MiniLox.Token.Scan

/-!
What the tokens of a text are, said without a scan. A text has tokens if it
is a sequence of items, each the longest at its place. There is one such
sequence at most, and the tokens are its items in their order, less the
blanks and the comments, with one more for the end of the text.
-/

namespace MiniLox

namespace Lexeme

/-- The items that make up a text, each the longest at its place. -/
inductive Split : List (Lexeme × List Char) → List Char → Prop where
  | nil : Split [] []
  | cons {lexeme : Lexeme} {u v : List Char} {items : List (Lexeme × List Char)}
      (hspells : lexeme.Spells u) (hlongest : Longest u v) (hrest : Split items v) :
      Split ((lexeme, u) :: items) (u ++ v)

section Split

variable {items items' : List (Lexeme × List Char)} {s : List Char} {c : Char} {cs : List Char}

theorem Spells.ne_nil {lexeme : Lexeme} {u : List Char} (h : lexeme.Spells u) : u ≠ [] := by
  obtain ⟨_, u', v', htakes, happ, -⟩ := h.exists_takes []
  cases htakes with
  | @intro c cs item hnext =>
      rintro rfl
      rw [item.append_eq] at happ
      contradiction

/-- The first item of a text is the one that is taken off its front. -/
theorem Split.exists_takes (h : Split items s) (hs : s ≠ []) :
    ∃ lexeme u v rest, items = (lexeme, u) :: rest ∧ s = u ++ v ∧ Takes lexeme u v ∧
      Split rest v := by
  cases h with
  | nil => contradiction
  | cons hspells hlongest hrest =>
      exact ⟨_, _, _, _, rfl, rfl, takes_iff.mpr ⟨hspells, hlongest⟩, hrest⟩

theorem split_nil_iff : Split items [] ↔ items = [] := by
  constructor
  · intro h
    generalize hs : ([] : List Char) = s at h
    cases h with
    | nil => rfl
    | cons hspells hlongest hrest =>
        have := hspells.ne_nil
        simp_all
  · rintro rfl
    exact .nil

theorem split_iff_of_next {item : Item (c :: cs)} (hnext : next c cs = .ok item) :
    Split items (c :: cs) ↔
      ∃ rest, items = (item.lexeme, item.covered) :: rest ∧ Split rest item.rest := by
  have htakes := Takes.intro hnext
  constructor
  · intro h
    obtain ⟨lexeme, u, v, rest, rfl, hs, hfirst, hrest⟩ := h.exists_takes (List.cons_ne_nil c cs)
    obtain ⟨rfl, rfl, rfl⟩ := htakes.eq hfirst (item.append_eq.trans hs)
    exact ⟨rest, rfl, hrest⟩
  · rintro ⟨rest, rfl, hrest⟩
    have hsplit := Split.cons htakes.spells htakes.longest hrest
    rwa [item.append_eq] at hsplit

theorem not_split_of_next {fault : Fault} (hnext : next c cs = .error fault) :
    ¬Split items (c :: cs) := by
  intro h
  obtain ⟨lexeme, u, v, rest, -, hs, htakes, -⟩ := h.exists_takes (List.cons_ne_nil c cs)
  cases htakes with
  | @intro c' cs' item hitem =>
      cases hs.trans item.append_eq
      cases hnext.symm.trans hitem

/-- A text is a sequence of items in one way at most. -/
theorem Split.eq (h : Split items s) (h' : Split items' s) : items = items' := by
  induction h generalizing items' with
  | nil => exact (split_nil_iff.mp h').symm
  | @cons lexeme u v items hspells hlongest hrest ih =>
      have hne : u ++ v ≠ [] := List.append_ne_nil_of_left_ne_nil hspells.ne_nil v
      obtain ⟨lexeme', u', v', rest, rfl, hs, htakes, hrest'⟩ := h'.exists_takes hne
      obtain ⟨rfl, rfl, rfl⟩ := (takes_iff.mpr ⟨hspells, hlongest⟩).eq htakes hs
      rw [ih hrest']

end Split

end Lexeme

/-! ### The tokens of a sequence of items -/

namespace Token

open Lexeme

variable {start : Position} {items : List (Lexeme × List Char)} {s : List Char}
  {tokens : List Token}

/-- The token that an item is, if it is one, when the item starts at a given
place. -/
def stamp? (start : Position) : Lexeme × List Char → Option Token
  | (.blank, _) => none
  | (.comment, _) => none
  | (.token kind literal, covered) =>
    some
      { kind := kind
        lexeme := String.ofList covered
        literal := literal
        line := (start.advance covered).line
        column := start.column }

theorem ofItem?_eq_stamp? (start : Position) (item : Item s) :
    ofItem? start item = stamp? start (item.lexeme, item.covered) := by
  unfold ofItem?
  split <;> simp_all [stamp?]

/-- The tokens of a sequence of items that starts at a given place. -/
def ofItems (start : Position) : List (Lexeme × List Char) → List Token
  | [] => [atEnd start]
  | item :: items => (stamp? start item).toList ++ ofItems (start.advance item.2) items

/-- The tokens are those of the items that make up the text. -/
theorem scanFrom_eq_ok_iff :
    scanFrom start s = .ok tokens ↔ ∃ items, Split items s ∧ tokens = ofItems start items := by
  fun_induction scanFrom start s generalizing tokens with
  | case1 start =>
      simp only [split_nil_iff, exists_eq_left, ofItems, Except.ok.injEq, eq_comm]
  | case2 start c cs fault hnext =>
      simp only [reduceCtorEq, false_iff]
      rintro ⟨items, hsplit, -⟩
      exact not_split_of_next hnext hsplit
  | case3 start c cs item hnext e hrest ih =>
      simp only [reduceCtorEq, false_iff]
      rintro ⟨items, hsplit, -⟩
      obtain ⟨rest, -, hbehind⟩ := (split_iff_of_next hnext).mp hsplit
      cases hrest.symm.trans (ih.mpr ⟨rest, hbehind, rfl⟩)
  | case4 start c cs item hnext others hrest ih =>
      obtain ⟨rest, hsplit, hothers⟩ := ih.mp hrest
      rw [Except.ok.injEq, ofItem?_eq_stamp?, hothers]
      constructor
      · rintro rfl
        exact ⟨_, (split_iff_of_next hnext).mpr ⟨rest, rfl, hsplit⟩, rfl⟩
      · rintro ⟨items, hitems, rfl⟩
        obtain ⟨rest', rfl, hsplit'⟩ := (split_iff_of_next hnext).mp hitems
        rw [hsplit.eq hsplit']
        rfl

/-- What a token is, apart from where it stands. -/
def content (t : Token) : Kind × String × Option Value := (t.kind, t.lexeme, t.literal)

/-- What the token of an item is, if the item is one. -/
def content? : Lexeme × List Char → Option (Kind × String × Option Value)
  | (.blank, _) => none
  | (.comment, _) => none
  | (.token kind literal, covered) => some (kind, String.ofList covered, literal)

theorem map_content_stamp? (start : Position) (item : Lexeme × List Char) :
    (stamp? start item).map content = content? item := by
  obtain ⟨lexeme, covered⟩ := item
  cases lexeme <;> rfl

theorem map_content_ofItems (start : Position) (items : List (Lexeme × List Char)) :
    (ofItems start items).map content = items.filterMap content? ++ [(.endOfText, "", none)] := by
  induction items generalizing start with
  | nil => rfl
  | cons item items ih =>
      rw [ofItems, List.map_append, ih, List.filterMap_cons, ← map_content_stamp? start item]
      cases stamp? start item <;> rfl

/-- A text has tokens if it is a sequence of items, each the longest at its
place, and only then. The items are settled by the text, and the tokens are
those among them, with one for the end of the text behind. -/
theorem scan_follows_lexical_grammar (source : String) :
    ((∃ tokens, scan source = .ok tokens) ↔ ∃ items, Split items source.toList) ∧
      (∀ items items', Split items source.toList → Split items' source.toList →
        items = items') ∧
      (∀ items tokens, Split items source.toList → scan source = .ok tokens →
        tokens.map content = items.filterMap content? ++ [(.endOfText, "", none)]) ∧
      (∀ (lexeme : Lexeme) (u v : List Char), lexeme.Spells u →
        (Longest u v ↔ ¬CarriesOn lexeme u v)) := by
  refine ⟨?_, fun _ _ h h' => h.eq h', ?_, fun _ _ _ h => h.longest_iff⟩
  · constructor
    · rintro ⟨tokens, hscan⟩
      obtain ⟨items, hsplit, -⟩ := scanFrom_eq_ok_iff.mp hscan
      exact ⟨items, hsplit⟩
    · rintro ⟨items, hsplit⟩
      exact ⟨_, scanFrom_eq_ok_iff.mpr ⟨items, hsplit, rfl⟩⟩
  · intro items tokens hsplit hscan
    obtain ⟨items', hsplit', rfl⟩ := scanFrom_eq_ok_iff.mp hscan
    rw [hsplit.eq hsplit', map_content_ofItems]

/-- The items of `x>=12.5//`. -/
def measure : List (Lexeme × List Char) :=
  [(.token .identifier none, ['x']), (.token .greaterEqual none, ['>', '=']),
    (numeral ['1', '2'] ['5'], ['1', '2', '.', '5']), (.comment, ['/', '/'])]

theorem scan_follows_lexical_grammar_measure :
    Split measure "x>=12.5//".toList ∧
      ∃ tokens, scan "x>=12.5//" = .ok tokens ∧
        tokens.map content =
          [(.identifier, "x", none), (.greaterEqual, ">=", none),
            (.number, "12.5", some (.number (Decimal.ofDigits ['1', '2'] ['5']).toFloat)),
            (.endOfText, "", none)] := by
  have hkeyword : ∀ entry ∈ Kind.keywords, entry.1 ≠ String.ofList ['x'] := by decide
  have hname : Spells (.token .identifier none) ['x'] :=
    .identifier (by decide) (by simp) fun _ hmem => hkeyword _ hmem rfl
  have hsymbol : Spells (.token .greaterEqual none) ['>', '='] := .symbol (by decide)
  have hnumber : Spells (numeral ['1', '2'] ['5']) ['1', '2', '.', '5'] :=
    .fractional (by decide) (by decide) (List.all_eq_true.mp rfl)
  have hcomment : Spells .comment ['/', '/'] := .comment (by decide)
  have hchars : "x>=12.5//".toList = ['x', '>', '=', '1', '2', '.', '5', '/', '/'] := by decide
  have hsplit : Split measure "x>=12.5//".toList := by
    rw [hchars]
    refine .cons hname (hname.longest_iff.mpr ?_) (.cons hsymbol (hsymbol.longest_iff.mpr ?_)
      (.cons hnumber (hnumber.longest_iff.mpr ?_)
        (.cons hcomment (hcomment.longest_iff.mpr ?_) .nil)))
    · rintro (⟨-, hc⟩ | _)
      exact absurd hc (by decide)
    · rintro (⟨hkind, -⟩ | _)
      exact absurd hkind (by decide)
    · rintro (_ | hc)
      exact absurd hc (by decide)
    · rintro (_ | _)
  obtain ⟨hscans, -, hcontent, -⟩ := scan_follows_lexical_grammar "x>=12.5//"
  obtain ⟨tokens, htokens⟩ := hscans.mpr ⟨measure, hsplit⟩
  exact ⟨hsplit, tokens, htokens, hcontent measure tokens hsplit htokens⟩

end Token

end MiniLox
