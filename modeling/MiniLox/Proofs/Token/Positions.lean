import Mathlib.Data.List.Forall2
import MiniLox.Proofs.Token.Places
import MiniLox.Proofs.Token.Stops

/-!
The positions of the tokens of a text, and of its error if it has no tokens. A
token takes up a range of the characters of the text, and the ranges come one
behind the other. The line of a token is that of the end of its range, counted
by newlines, and the column that of its start, counted from the last newline
before it. An error has the line of the character that starts no item, or, if a
string is open, that of the end of the text.
-/

namespace MiniLox

namespace Token

open Lexeme Text

variable {start : Position} {items : List (Lexeme × List Char)} {source s rest : List Char}
  {offset p q : Nat} {t : Token}

/-- The token takes up a range of characters of a text and has the position that
the range gives it. -/
structure Occupies (source : List Char) (t : Token) (p q : Nat) : Prop where
  lt : p < q
  le_length : q ≤ source.length
  slice : (source.take q).drop p = t.lexeme.toList
  line : t.line = (((source.take q).count '\n' + 1 : Nat) : Int)
  column : t.column = ((lastLine (source.take p)).length : Int)

/-- The ranges of the items that are tokens, for items that start behind so many
characters. -/
def ranges (offset : Nat) : List (Lexeme × List Char) → List (Nat × Nat)
  | [] => []
  | (.token _ _, u) :: items => (offset, offset + u.length) :: ranges (offset + u.length) items
  | (_, u) :: items => ranges (offset + u.length) items

/-! ### Ranges -/

theorem le_of_mem_ranges {range : Nat × Nat} (h : range ∈ ranges offset items) :
    offset ≤ range.1 := by
  induction items generalizing offset with
  | nil => contradiction
  | cons item items ih =>
      obtain ⟨lexeme, u⟩ := item
      cases lexeme with
      | blank | comment => exact Nat.le_trans (Nat.le_add_right _ _) (ih h)
      | token kind literal =>
          rcases List.mem_cons.mp h with rfl | h
          · exact Nat.le_refl _
          · exact Nat.le_trans (Nat.le_add_right _ _) (ih h)

/-- No range starts before the end of an earlier one. -/
theorem pairwise_ranges (offset : Nat) (items : List (Lexeme × List Char)) :
    (ranges offset items).Pairwise fun a b => a.2 ≤ b.1 := by
  induction items generalizing offset with
  | nil => exact .nil
  | cons item items ih =>
      obtain ⟨lexeme, u⟩ := item
      cases lexeme with
      | blank | comment => exact ih _
      | token kind literal => exact .cons (fun _ => le_of_mem_ranges) (ih _)

/-- A token takes up the characters of its item. -/
theorem occupies_of_stamp? {before u behind : List Char} {kind : Kind} {literal : Option Value}
    (hne : u ≠ [])
    (h : stamp? (({} : Position).advance before) (.token kind literal, u) = some t) :
    t.Occupies (before ++ (u ++ behind)) before.length (before.length + u.length) := by
  obtain ⟨hitem, hline, hcolumn⟩ := stamp?_eq_some_iff.mp h
  obtain ⟨-, rfl⟩ := Prod.mk.inj hitem
  have hstop : (before ++ (t.lexeme.toList ++ behind)).take
      (before.length + t.lexeme.toList.length) = before ++ t.lexeme.toList := by
    rw [List.take_length_add_append, List.take_left]
  refine ⟨?_, ?_, ?_, ?_, ?_⟩
  · have := List.length_pos_iff.mpr hne
    omega
  · simp only [List.length_append]
    omega
  · rw [hstop, List.drop_left]
  · rw [hstop, hline, ← Position.advance_append, Position.line_advance, Nat.add_comm]
  · rw [hcolumn, List.take_left, Position.column_advance_eq]

/-- The tokens of some items take up the ranges of these. -/
theorem forall₂_occupies (h : Leading items s rest) (before : List Char) :
    List.Forall₂ (fun t range => t.Occupies (before ++ s) range.1 range.2)
      (stamps (({} : Position).advance before) items) (ranges before.length items) := by
  induction h generalizing before with
  | nil => exact .nil
  | @cons lexeme u v rest items hspells hlongest hrest ih =>
      have hrests := ih (before ++ u)
      rw [Position.advance_append, List.length_append, List.append_assoc] at hrests
      cases lexeme with
      | blank | comment => exact hrests
      | token kind literal => exact .cons (occupies_of_stamp? hspells.ne_nil rfl) hrests

/-! ### Lines -/

theorem line_le_of_mem_ofItems (h : t ∈ ofItems start items) : (start.line : Int) ≤ t.line := by
  induction items generalizing start with
  | nil =>
      obtain rfl := List.mem_singleton.mp h
      exact Int.le_refl _
  | cons item items ih =>
      rcases List.mem_append.mp h with h | h
      · obtain ⟨rfl, hline, -⟩ := stamp?_eq_some_iff.mp (Option.mem_toList.mp h)
        rw [hline, Position.line_advance]
        omega
      · have := ih h
        rw [Position.line_advance] at this
        omega

/-- Lines never decrease from a token to a later one. -/
theorem pairwise_line_ofItems (start : Position) (items : List (Lexeme × List Char)) :
    (ofItems start items).Pairwise fun t u => t.line ≤ u.line := by
  induction items generalizing start with
  | nil => exact List.pairwise_singleton _ _
  | cons item items ih =>
      refine List.pairwise_append.mpr ⟨?_, ih _, fun t ht u hu => ?_⟩
      · cases stamp? start item <;> simp
      · obtain ⟨rfl, hline, -⟩ := stamp?_eq_some_iff.mp (Option.mem_toList.mp ht)
        rw [hline]
        exact line_le_of_mem_ofItems hu

/-- The line of a token without newlines is a piece of the text, and the token
stands in it at its column. -/
theorem CutFrom.exists_getElem?_lines {before : List Char} (h : t.CutFrom source before)
    (hnewline : '\n' ∉ t.lexeme.toList) :
    ∃ line, (lines source)[(t.line - 1).toNat]? = some line ∧
      t.lexeme.toList <+: line.drop t.column.toNat := by
  obtain ⟨above, left, right, below, -, rfl, hstands⟩ := h.exists_standsIn_of_not_mem hnewline
  have hline : (t.line - 1).toNat = above.count '\n' := by
    have := hstands.line
    omega
  have hcolumn : t.column.toNat = left.length := by
    have := hstands.column
    omega
  refine ⟨left ++ t.lexeme.toList ++ right, ?_, ?_⟩
  · rw [hline]
    exact hstands.isLine.getElem?_lines
  · rw [hcolumn, List.append_assoc, List.drop_left]
    exact List.prefix_append _ _

/-! ### Positions -/

/-- The tokens of a text and the one for its end have exact positions. Each has
its range, and no range starts before the end of an earlier one; a token without
newlines is found at its column in its line; lines never decrease; and the token
for the end has the place of the end. -/
structure Laid (source : List Char) (body : List Token) (ending : Token)
    (spans : List (Nat × Nat)) : Prop where
  kind_ne : ∀ t ∈ body, t.kind ≠ .endOfText
  occupies : List.Forall₂ (fun t span => t.Occupies source span.1 span.2) body spans
  apart : spans.Pairwise fun a b => a.2 ≤ b.1
  found : ∀ t ∈ body, '\n' ∉ t.lexeme.toList →
    ∃ line, (lines source)[(t.line - 1).toNat]? = some line ∧
      t.lexeme.toList <+: line.drop t.column.toNat
  ordered : (body ++ [ending]).Pairwise fun t u => t.line ≤ u.line
  ends : ∃ line, (lines source).getLast? = some line ∧
    ending =
      { kind := .endOfText
        lexeme := ""
        line := ((source.count '\n' + 1 : Nat) : Int)
        column := (line.length : Int) }

theorem laid_of_split {text : String} {tokens : List Token} (hscan : scan text = .ok tokens)
    (hsplit : Split items text.toList) (htokens : tokens = ofItems {} items) :
    tokens = stamps {} items ++ [atEnd (({} : Position).advance (covered items))] ∧
      Laid text.toList (stamps {} items) (atEnd (({} : Position).advance (covered items)))
        (ranges 0 items) := by
  have hcovered : covered items = text.toList := by
    rw [← hsplit.leading.covered_append, List.append_nil]
  have hbody : ∀ t ∈ stamps {} items, t.kind ≠ .endOfText :=
    fun t ht => kind_of_mem_stamps hsplit.leading ht
  have hstamps := htokens.trans (ofItems_eq_stamps {} items)
  refine ⟨hstamps, hbody, forall₂_occupies hsplit.leading [], pairwise_ranges 0 items,
    fun t ht hnewline => ?_, ?_, lastLine text.toList, getLast?_lines text.toList, ?_⟩
  · have hmem : t ∈ tokens := by
      rw [hstamps]
      exact List.mem_append_left _ ht
    obtain ⟨before, hcut⟩ := exists_cutFrom hscan hmem (hbody t ht)
    exact hcut.exists_getElem?_lines hnewline
  · rw [← ofItems_eq_stamps]
    exact pairwise_line_ofItems {} items
  · rw [hcovered, atEnd, Position.line_advance, Position.column_advance_eq, Nat.add_comm]

/-- The error of a text has an exact line: that of the first character behind
the items of the text, if this character starts no item at all; if it is the
quote of a string that never ends, the line of the end of the text. -/
inductive Located (source : List Char) : ScanError → Prop where
  | unexpected {items : List (Lexeme × List Char)} {c : Char} {behind : List Char}
      (hleading : Leading items source (c :: behind))
      (hstarts : ∀ (lexeme : Lexeme) (u : List Char), ¬lexeme.Spells (c :: u)) :
      Located source { fault := .unexpected c, line := (covered items).count '\n' + 1 }
  | unterminated {items : List (Lexeme × List Char)} {behind : List Char}
      (hleading : Leading items source ('"' :: behind)) (hopen : '"' ∉ behind) :
      Located source { fault := .unterminated, line := source.count '\n' + 1 }

theorem located_of_scan_error {text : String} {e : ScanError} (hscan : scan text = .error e) :
    Located text.toList e := by
  obtain ⟨items, c, behind, fault, hleading, hnext, rfl⟩ := scanFrom_eq_error_iff.mp hscan
  rcases next_eq_error hnext with ⟨rfl, rfl, hbehind⟩ | ⟨rfl, hstarts⟩
  · have hline : (text.toList.count '\n' + 1) =
        (ScanError.ofFault .unterminated (({} : Position).advance (covered items))
          ('"' :: behind)).line := by
      show _ = ((({} : Position).advance (covered items)).advance ('"' :: behind)).line
      rw [← Position.advance_append, hleading.covered_append, Position.line_advance, Nat.add_comm]
    have hlocated := Located.unterminated hleading hbehind
    rw [hline] at hlocated
    exact hlocated
  · have hline : (covered items).count '\n' + 1 =
        (({} : Position).advance (covered items)).line := by
      rw [Position.line_advance, Nat.add_comm]
    have hlocated := Located.unexpected hleading fun lexeme u hspells =>
      exists_next_eq_error_iff.mp ⟨_, hstarts u⟩ lexeme (c :: u) [] hspells (List.append_nil _)
    rw [hline] at hlocated
    exact hlocated

/-- All positions are exact: those of the tokens of a text, and that of its
error if it has no tokens. -/
theorem positions_are_exact (source : String) :
    (∀ tokens, scan source = .ok tokens →
      ∃ body ending spans, tokens = body ++ [ending] ∧ Laid source.toList body ending spans) ∧
    ∀ e, scan source = .error e → Located source.toList e := by
  constructor
  · intro tokens hscan
    obtain ⟨items, hsplit, htokens⟩ := scanFrom_eq_ok_iff.mp hscan
    obtain ⟨hstamps, hlaid⟩ := laid_of_split hscan hsplit htokens
    exact ⟨_, _, _, hstamps, hlaid⟩
  · exact fun e => located_of_scan_error

/-- The text of a token and where it stands. -/
def standing (t : Token) : String × Int × Int := (t.lexeme, t.line, t.column)

/-- A string over two lines behind a comment, in front of a name. -/
theorem positions_are_exact_string :
    (∃ body ending spans, (scan "// s\n \"p\nq\" r").toOption = some (body ++ [ending]) ∧
      Laid "// s\n \"p\nq\" r".toList body ending spans ∧
        body.map standing = [("\"p\nq\"", 3, 1), ("r", 3, 3)]) ∧
      Located "// s\n \"p\n".toList { fault := .unterminated, line := 3 } ∧
      Located "x\n @\n".toList { fault := .unexpected '@', line := 2 } := by
  obtain ⟨tokens, hscan⟩ := scanError?_eq_none_iff.mp
    (show scanError? "// s\n \"p\nq\" r" = none by decide +kernel)
  have hstanding : (scan "// s\n \"p\nq\" r").toOption.map (List.map standing) =
      some ([("\"p\nq\"", 3, 1), ("r", 3, 3)] ++ [("", 3, 4)]) := by
    decide +kernel
  rw [hscan] at hstanding ⊢
  obtain ⟨body, ending, spans, rfl, hlaid⟩ := (positions_are_exact _).1 tokens hscan
  have hall : (body ++ [ending]).map standing =
      [("\"p\nq\"", 3, 1), ("r", 3, 3)] ++ [("", 3, 4)] :=
    Option.some.inj hstanding
  rw [List.map_append] at hall
  refine ⟨⟨body, ending, spans, rfl, hlaid, (List.append_inj' hall rfl).1⟩,
    (positions_are_exact _).2 _ (scanError?_eq_some_iff.mp (by decide +kernel)),
    (positions_are_exact _).2 _ (scanError?_eq_some_iff.mp (by decide +kernel))⟩

end Token

end MiniLox
