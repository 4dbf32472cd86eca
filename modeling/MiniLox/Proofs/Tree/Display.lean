import Mathlib.Data.List.Forall2
import MiniLox.Runner
import MiniLox.Proofs.Decimal.Texts
import MiniLox.Proofs.Text.Dumps
import MiniLox.Proofs.Tree.Sameness

/-!
What the lines that show the trees of a text tell about the trees. A string is shown
as it stands, in quotes that it cannot hold. A number, a name and a keyword are words
without spaces and parentheses. Everything else stands in parentheses, its operator
first, and what stands behind an operand tells how many operands there are. So the
end of a tree can be told from the characters up to there, and the lines show which
trees they are. Only the number beyond all others is shown as a name can be.
-/

namespace MiniLox

open Grammar hiding Failure
open Binary64

/-! ### Trees that are shown alike -/

/-- The number that stands for the numerals too large for all others. -/
def Binary64.infinite : Float := ofCode .positive infinity

/-- The trees differ in nothing but the places of their tokens, except that the infinite number
and the name that is written like it stand for each other. -/
inductive Expr.Alike : Expr → Expr → Prop where
  | literal (v : Value) : Alike (.literal v) (.literal v)
  | group {inner inner' : Expr} (h : Alike inner inner') : Alike (.group inner) (.group inner')
  | name {t t' : Token} (h : t.unplaced = t'.unplaced) : Alike (.name t) (.name t')
  | unary {operator operator' : Token} {right right' : Expr}
      (h : operator.unplaced = operator'.unplaced) (hright : Alike right right') :
      Alike (.unary operator right) (.unary operator' right')
  | binary {operator operator' : Token} {left left' right right' : Expr}
      (hleft : Alike left left') (h : operator.unplaced = operator'.unplaced)
      (hright : Alike right right') :
      Alike (.binary left operator right) (.binary left' operator' right')
  | infinite_name {t : Token} (h : t.lexeme = "inf") :
      Alike (.literal (.number infinite)) (.name t)
  | name_infinite {t : Token} (h : t.lexeme = "inf") :
      Alike (.name t) (.literal (.number infinite))

/-- The statements have the same form, up to the place of the name in it, and their expressions
are alike. -/
structure Stmt.Alike (s s' : Stmt) : Prop where
  form : Mask.places.form s.form = Mask.places.form s'.form
  expr : s.expr.Alike s'.expr

theorem Token.lexeme_eq_of_unplaced {t t' : Token} (h : t.unplaced = t'.unplaced) :
    t.lexeme = t'.lexeme :=
  show t.unplaced.lexeme = t'.unplaced.lexeme by rw [h]

theorem Form.words_eq_of_places {form form' : Form}
    (h : Mask.places.form form = Mask.places.form form') : form.words = form'.words := by
  rw [← words_unplaced form, h, words_unplaced]

namespace Expr

variable {e e' : Expr}

theorem display_infinite : (literal (.number infinite)).display = "inf" := text_infinity

theorem Alike.display_eq (h : e.Alike e') : e.display = e'.display := by
  induction h with
  | literal v => rfl
  | group _ ih => rw [display, display, ih]
  | name h => exact Token.lexeme_eq_of_unplaced h
  | unary h _ ih => rw [display, display, ih, Token.lexeme_eq_of_unplaced h]
  | binary _ h _ ihleft ihright =>
      rw [display, display, ihleft, ihright, Token.lexeme_eq_of_unplaced h]
  | infinite_name h => rw [display_infinite, display, h]
  | name_infinite h => rw [display_infinite, display, h]

end Expr

theorem Stmt.Alike.display_eq {s s' : Stmt} (h : s.Alike s') : s.display = s'.display := by
  rw [display, display, h.expr.display_eq, Form.words_eq_of_places h.form]

/-! ### Words -/

namespace Token

variable {t : Token}

theorem IsWritten.space_not_mem (h : t.IsWritten) (hkind : t.kind ≠ .string) :
    ' ' ∉ t.lexeme.toList := by
  rcases h with ⟨-, hempty, -⟩ | hspells
  · simp [hempty]
  · exact hspells.not_mem hkind (by decide) (by decide)

theorem IsOperator.space_not_mem (h : t.IsOperator) : ' ' ∉ t.lexeme.toList := by
  refine h.written.space_not_mem fun hkind => ?_
  have hoperator := h.kind
  rw [hkind] at hoperator
  contradiction

theorem IsName.space_not_mem (h : t.IsName) : ' ' ∉ t.lexeme.toList :=
  h.written.space_not_mem (by rw [h.kind]; decide)

/-- The word in front of a group is a name, so no operator is written like it. -/
theorem IsOperator.lexeme_ne_group (h : t.IsOperator) : t.lexeme ≠ "group" := by
  intro hlexeme
  have hgroup : IsWritten { kind := .ofWord "group", lexeme := "group", line := 0 } :=
    .inr (Lexeme.spells_ofWord "group" (by decide) (by decide))
  have hkind : t.kind = .identifier := (h.written.eq_of_lexeme_eq hgroup hlexeme).1
  have hoperator := h.kind
  rw [hkind] at hoperator
  contradiction

end Token

namespace Expr

variable {e e' : Expr} {k : Kind} {u r r' : List Char}

/-- The characters of words, where trees are shown. -/
def isInner (c : Char) : Bool := c != ' ' && c != ')'

/-- What a word of the language stands for where a tree is shown. -/
inductive Denoted : Kind → List Char → Expr → Prop where
  | nil (u : List Char) : Denoted .nilWord u (.literal .nil)
  | false (u : List Char) : Denoted .falseWord u (.literal (.boolean false))
  | true (u : List Char) : Denoted .trueWord u (.literal (.boolean true))
  | infinite : Denoted .identifier "inf".toList (.literal (.number infinite))
  | name {t : Token} {u : List Char} (h : t.IsName) (hlexeme : t.lexeme.toList = u) :
      Denoted .identifier u (.name t)

/-- The tree is shown as one word: a number that begins with a digit, or a word of the language
that begins with a letter. -/
inductive Worded : Expr → List Char → Prop where
  | number {code : Nat} {u : List Char} (hcode : code < infinity) (h : Writes code u) :
      Worded (.literal (.number (ofCode .positive code))) u
  | word {k : Kind} {u : List Char} {e : Expr} (hword : k.isWord = true)
      (hspells : (Lexeme.token k none).Spells u) (h : Denoted k u e) : Worded e u

/-- A word stands for one tree only, but for the infinite number and its name. -/
theorem Denoted.alike (h : Denoted k u e) (h' : Denoted k u e') : e.Alike e' := by
  cases h with
  | nil | false | true =>
      cases h'
      exact .literal _
  | infinite =>
      cases h' with
      | infinite => exact .literal _
      | name h' hlexeme' => exact .infinite_name (String.toList_inj.mp hlexeme')
  | name h hlexeme =>
      cases h' with
      | infinite => exact .name_infinite (String.toList_inj.mp hlexeme)
      | name h' hlexeme' =>
          have heq := String.toList_inj.mp (hlexeme.trans hlexeme'.symm)
          exact .name (h.written.unplaced_eq h'.written heq)

theorem isInner_of {accepts : Char → Bool} (hspace : accepts ' ' = false)
    (hclosing : accepts ')' = false) {c : Char} (h : accepts c = true) : isInner c = true := by
  simp only [isInner, Bool.and_eq_true, bne_iff_ne]
  constructor
  · rintro rfl
    exact absurd h (by simp [hspace])
  · rintro rfl
    exact absurd h (by simp [hclosing])

/-- A number begins with a digit, and a word of the language with a letter. -/
theorem Worded.exists_eq_cons (h : e.Worded u) : ∃ c cs, u = c :: cs ∧
    Lexeme.isWordPart c = true ∧ ∀ d ∈ u, isInner d = true := by
  have hpart {d : Char} (hd : Lexeme.isWordPart d = true) : isInner d = true :=
    isInner_of (by decide) (by decide) hd
  have hnumeral {d : Char} (hd : Decimal.isNumeralPart d = true) : isInner d = true :=
    isInner_of (by decide) (by decide) hd
  cases h with
  | number hcode hwrites =>
      obtain ⟨c, cs, rfl, hc, hcs⟩ := hwrites.exists_eq_cons
      have hword : Lexeme.isWordPart c = true := by simp [Lexeme.isWordPart, hc]
      refine ⟨c, cs, rfl, hword, List.forall_mem_cons.mpr ⟨hpart hword, fun d hd => ?_⟩⟩
      exact hnumeral (hcs d hd)
  | word hword hspells =>
      obtain ⟨c, cs, rfl, hc, hcs, -⟩ := Lexeme.exists_word_of_spells hspells hword
      have hword : Lexeme.isWordPart c = true := by simp [Lexeme.isWordPart, hc]
      refine ⟨c, cs, rfl, hword, List.forall_mem_cons.mpr ⟨hpart hword, fun d hd => ?_⟩⟩
      exact hpart (hcs d hd)

theorem Worded.alike (h : e.Worded u) (h' : e'.Worded u) : e.Alike e' := by
  -- No word of the language is a number.
  have hdigit {code : Nat} {k : Kind} (hwrites : Writes code u) (hword : k.isWord = true)
      (hspells : (Lexeme.token k none).Spells u) : False := by
    obtain ⟨c, cs, rfl, hc, -⟩ := hwrites.exists_eq_cons
    obtain ⟨d, ds, heq, hd, -⟩ := Lexeme.exists_word_of_spells hspells hword
    rw [← (List.cons.inj heq).1, Lexeme.isLetter_eq_false_of_isDigit hc] at hd
    contradiction
  cases h with
  | number hcode hwrites =>
      cases h' with
      | number hcode' hwrites' =>
          rw [hwrites.code_eq hwrites' hcode hcode']
          exact .literal _
      | word hword hspells => exact (hdigit hwrites hword hspells).elim
  | word hword hspells h =>
      cases h' with
      | number hcode' hwrites' => exact (hdigit hwrites' hword hspells).elim
      | word hword' hspells' h' =>
          obtain ⟨rfl, -⟩ := Lexeme.token.inj (hspells.eq hspells')
          exact h.alike h'

theorem worded_name {t : Token} (h : t.IsName) : (name t).Worded (name t).display.toList :=
  .word (by decide) h.spells (.name h rfl)

/-- But for strings, a literal is shown as a word. -/
theorem worded_literal {v : Value} (h : v.Legible) (hstring : ∀ s, v ≠ .string s) :
    (literal v).Worded (literal v).display.toList := by
  cases v with
  | nil => exact .word (by decide) (Lexeme.spells_ofWord "nil" (by decide) (by decide)) (.nil _)
  | boolean b =>
      cases b with
      | false =>
          have hspells := Lexeme.spells_ofWord "false" (by decide) (by decide)
          exact .word (by decide) hspells (.false _)
      | true =>
          have hspells := Lexeme.spells_ofWord "true" (by decide) (by decide)
          exact .word (by decide) hspells (.true _)
  | number x =>
      obtain ⟨d, rfl⟩ := h
      rcases Nat.lt_or_eq_of_le d.code_le with hcode | hcode
      · exact .number hcode (writes_toList_text hcode)
      · have hinfinite : d.toFloat = infinite := congrArg (ofCode .positive) hcode
        have hspells := Lexeme.spells_ofWord "inf" (by decide) (by decide)
        rw [hinfinite, display_infinite]
        exact .word (by decide) hspells .infinite
  | string s => exact absurd rfl (hstring s)

/-! ### Where a tree ends -/

/-- What a tree of a text looks like where it is shown. -/
inductive Shape : Expr → Prop where
  | word {e : Expr} (h : e.Worded e.display.toList) : Shape e
  | string {s : String} (h : '"' ∉ s.toList) : Shape (.literal (.string s))
  | group {inner : Expr} (h : inner.Legible) : Shape (.group inner)
  | unary {operator : Token} {right : Expr} (h : operator.IsOperator) (hright : right.Legible) :
      Shape (.unary operator right)
  | binary {operator : Token} {left right : Expr} (hleft : left.Legible)
      (h : operator.IsOperator) (hright : right.Legible) : Shape (.binary left operator right)

theorem Legible.shape (h : e.Legible) : e.Shape := by
  cases e with
  | literal v =>
      cases v with
      | string s => exact .string h
      | nil | boolean | number => exact .word (worded_literal h nofun)
  | group inner => exact .group h
  | name token => exact .word (worded_name h)
  | unary operator right => exact .unary h.1 h.2
  | binary left operator right => exact .binary h.1 h.2.1 h.2.2
  | misplaced form body => exact h.elim

section Texts

variable {operator : Token} {inner left right : Expr} {s : String}

theorem toList_display_string : (literal (.string s)).display.toList ++ r =
    '"' :: (s.toList ++ '"' :: r) := by
  simp [display, displayLiteral]

theorem toList_display_group : (group inner).display.toList ++ r =
    '(' :: ("group".toList ++ ' ' :: (inner.display.toList ++ ')' :: r)) := by
  rw [display, toList_parenthesized_pair]
  simp

theorem toList_display_unary : (unary operator right).display.toList ++ r =
    '(' :: (operator.lexeme.toList ++ ' ' :: (right.display.toList ++ ')' :: r)) := by
  rw [display, toList_parenthesized_pair]
  simp

theorem toList_display_binary : (binary left operator right).display.toList ++ r =
    '(' :: (operator.lexeme.toList ++
      ' ' :: (left.display.toList ++ ' ' :: (right.display.toList ++ ')' :: r))) := by
  rw [display, toList_parenthesized_triple]
  simp

end Texts

/-- A tree in parentheses, given the first word in them, what stands behind that, and what
stands behind the parentheses. -/
inductive Opened (head : String) (behind r : List Char) : Expr → Prop where
  | group {inner : Expr} (h : inner.Legible) (hhead : head = "group")
      (hbehind : behind = inner.display.toList ++ ')' :: r) : Opened head behind r (.group inner)
  | unary {operator : Token} {right : Expr} (h : operator.IsOperator) (hright : right.Legible)
      (hhead : head = operator.lexeme) (hbehind : behind = right.display.toList ++ ')' :: r) :
      Opened head behind r (.unary operator right)
  | binary {operator : Token} {left right : Expr} (hleft : left.Legible)
      (h : operator.IsOperator) (hright : right.Legible) (hhead : head = operator.lexeme)
      (hbehind : behind =
        left.display.toList ++ ' ' :: (right.display.toList ++ ')' :: r)) :
      Opened head behind r (.binary left operator right)

/-- A quote or a parenthesis begins no word. -/
theorem Worded.append_ne (h : e.Worded u) {c : Char} (hc : Lexeme.isWordPart c = false)
    (us : List Char) : c :: us ≠ u ++ r := by
  obtain ⟨d, ds, rfl, hd, -⟩ := h.exists_eq_cons
  intro heq
  rw [← (List.cons.inj heq).1, hc] at hd
  contradiction

/-- Only a tree in parentheses begins with one, and the first word in it ends at the space. -/
theorem Legible.opened {head : String} {behind : List Char} (h : e.Legible)
    (hhead : ' ' ∉ head.toList)
    (happ : '(' :: (head.toList ++ ' ' :: behind) = e.display.toList ++ r) :
    e.Opened head behind r := by
  have hcut {word : String} {us : List Char} (hword : ' ' ∉ word.toList)
      (heq : '(' :: (head.toList ++ ' ' :: behind) = '(' :: (word.toList ++ ' ' :: us)) :
      head = word ∧ behind = us := by
    obtain ⟨hfront, hrest⟩ := Lexeme.append_cons_inj hhead hword (List.cons.inj heq).2
    exact ⟨String.toList_inj.mp hfront, hrest⟩
  cases h.shape with
  | word hworded => exact absurd happ (hworded.append_ne (by decide) _)
  | string =>
      rw [toList_display_string] at happ
      exact absurd (List.cons.inj happ).1 (by decide)
  | group hinner =>
      rw [toList_display_group] at happ
      obtain ⟨hword, hbehind⟩ := hcut (by decide) happ
      exact .group hinner hword hbehind
  | unary hoperator hright =>
      rw [toList_display_unary] at happ
      obtain ⟨hword, hbehind⟩ := hcut hoperator.space_not_mem happ
      exact .unary hoperator hright hword hbehind
  | binary hleft hoperator hright =>
      rw [toList_display_binary] at happ
      obtain ⟨hword, hbehind⟩ := hcut hoperator.space_not_mem happ
      exact .binary hleft hoperator hright hword hbehind

/-- Where the tree stands in front of what ends a word, the characters tell which tree it is and
where it ends. -/
def Readable (e : Expr) : Prop :=
  ∀ {e' : Expr} {c c' : Char} {r r' : List Char}, e'.Legible → isInner c = false →
    isInner c' = false → e.display.toList ++ c :: r = e'.display.toList ++ c' :: r' →
    e.Alike e' ∧ c = c' ∧ r = r'

theorem Worded.readable (h : e.Worded e.display.toList) : e.Readable := by
  intro e' c c' r r' he' hc hc' happ
  cases he'.shape with
  | word h' =>
      obtain ⟨-, -, -, -, hinner⟩ := h.exists_eq_cons
      obtain ⟨-, -, -, -, hinner'⟩ := h'.exists_eq_cons
      obtain ⟨heq, hrest⟩ :=
        Lexeme.append_inj_of_head? hinner hinner' (by simp [hc]) (by simp [hc']) happ
      rw [← heq] at h'
      exact ⟨h.alike h', List.cons.inj hrest⟩
  | string =>
      rw [toList_display_string] at happ
      exact absurd happ.symm (h.append_ne (by decide) _)
  | group =>
      rw [toList_display_group] at happ
      exact absurd happ.symm (h.append_ne (by decide) _)
  | unary =>
      rw [toList_display_unary] at happ
      exact absurd happ.symm (h.append_ne (by decide) _)
  | binary =>
      rw [toList_display_binary] at happ
      exact absurd happ.symm (h.append_ne (by decide) _)

theorem readable_string {s : String} (h : '"' ∉ s.toList) : (literal (.string s)).Readable := by
  intro e' c c' r r' he' hc hc' happ
  rw [toList_display_string] at happ
  cases he'.shape with
  | word h' => exact absurd happ (h'.append_ne (by decide) _)
  | string h' =>
      rw [toList_display_string] at happ
      obtain ⟨hbody, hrest⟩ := Lexeme.append_cons_inj h h' (List.cons.inj happ).2
      rw [String.toList_inj.mp hbody]
      exact ⟨.literal _, List.cons.inj hrest⟩
  | group =>
      rw [toList_display_group] at happ
      exact absurd (List.cons.inj happ).1 (by decide)
  | unary =>
      rw [toList_display_unary] at happ
      exact absurd (List.cons.inj happ).1 (by decide)
  | binary =>
      rw [toList_display_binary] at happ
      exact absurd (List.cons.inj happ).1 (by decide)

theorem readable_group {inner : Expr} (h : inner.Readable) : (group inner).Readable := by
  intro e' c c' r r' he' hc hc' happ
  rw [toList_display_group] at happ
  cases he'.opened (by decide) happ with
  | group hinner' hhead hbehind =>
      obtain ⟨halike, -, hrest⟩ := h hinner' (by decide) (by decide) hbehind
      exact ⟨.group halike, List.cons.inj hrest⟩
  | unary h' hright' hhead | binary hleft' h' hright' hhead =>
      exact absurd hhead.symm h'.lexeme_ne_group

theorem readable_unary {operator : Token} {right : Expr} (h : operator.IsOperator)
    (hright : right.Readable) : (unary operator right).Readable := by
  intro e' c c' r r' he' hc hc' happ
  rw [toList_display_unary] at happ
  cases he'.opened h.space_not_mem happ with
  | group hinner' hhead => exact absurd hhead h.lexeme_ne_group
  | unary h' hright' hhead hbehind =>
      obtain ⟨halike, -, hrest⟩ := hright hright' (by decide) (by decide) hbehind
      exact ⟨.unary (h.written.unplaced_eq h'.written hhead) halike, List.cons.inj hrest⟩
  | binary hleft' h' hright' hhead hbehind =>
      -- An only operand is followed by a parenthesis, and the first of two by a space.
      obtain ⟨-, hmark, -⟩ := hright hleft' (by decide) (by decide) hbehind
      exact absurd hmark (by decide)

theorem readable_binary {operator : Token} {left right : Expr} (hleft : left.Readable)
    (h : operator.IsOperator) (hright : right.Readable) :
    (binary left operator right).Readable := by
  intro e' c c' r r' he' hc hc' happ
  rw [toList_display_binary] at happ
  cases he'.opened h.space_not_mem happ with
  | group hinner' hhead => exact absurd hhead h.lexeme_ne_group
  | unary h' hright' hhead hbehind =>
      obtain ⟨-, hmark, -⟩ := hleft hright' (by decide) (by decide) hbehind
      exact absurd hmark (by decide)
  | binary hleft' h' hright' hhead hbehind =>
      obtain ⟨halike, -, hoperand⟩ := hleft hleft' (by decide) (by decide) hbehind
      obtain ⟨halike', -, hrest⟩ := hright hright' (by decide) (by decide) hoperand
      have hoperator := h.written.unplaced_eq h'.written hhead
      exact ⟨.binary halike hoperator halike', List.cons.inj hrest⟩

theorem Legible.readable (h : e.Legible) : e.Readable := by
  induction e with
  | literal v =>
      cases v with
      | string s => exact readable_string h
      | nil | boolean | number => exact (worded_literal h nofun).readable
  | group inner ih => exact readable_group (ih h)
  | name token => exact (worded_name h).readable
  | unary operator right ih => exact readable_unary h.1 (ih h.2)
  | binary left operator right ihleft ihright =>
      exact readable_binary (ihleft h.1) h.2.1 (ihright h.2.2)
  | misplaced form body => exact h.elim

end Expr

/-! ### Statements -/

/-- The word in front of a statement. -/
def Form.word : Form → String
  | expression => "expr"
  | print => "print"
  | var _ => "var"

/-- What stands between that word and the expression. -/
def Form.bound : Form → List Char
  | expression | print => []
  | var name => name.lexeme.toList ++ [' ']

theorem Form.space_not_mem_word (form : Form) : ' ' ∉ form.word.toList := by
  cases form <;> simp [word]

namespace Stmt

variable {s s' : Stmt} {r r' : List Char}

theorem toList_display (s : Stmt) (r : List Char) : s.display.toList ++ r =
    '(' :: (s.form.word.toList ++
      ' ' :: (s.form.bound ++ (s.expr.display.toList ++ ')' :: r))) := by
  obtain ⟨form, e⟩ := s
  cases form with
  | expression | print =>
      rw [display, Form.words, List.singleton_append, toList_parenthesized_pair]
      simp [Form.word, Form.bound]
  | var name =>
      rw [display, Form.words, List.cons_append, List.singleton_append,
        toList_parenthesized_triple]
      simp [Form.word, Form.bound]

/-- Where the statement stands in front of a newline, the characters tell which statement it is
and where it ends. -/
theorem Legible.display_append_inj (h : s.Legible) (h' : s'.Legible)
    (happ : s.display.toList ++ '\n' :: r = s'.display.toList ++ '\n' :: r') :
    s.Alike s' ∧ r = r' := by
  rw [toList_display, toList_display] at happ
  obtain ⟨hword, hbehind⟩ := Lexeme.append_cons_inj s.form.space_not_mem_word
    s'.form.space_not_mem_word (List.cons.inj happ).2
  obtain ⟨form, e⟩ := s
  obtain ⟨form', e'⟩ := s'
  have hexpr (heq : e.display.toList ++ ')' :: '\n' :: r = e'.display.toList ++ ')' :: '\n' :: r') :
      e.Alike e' ∧ r = r' := by
    obtain ⟨halike, -, hrest⟩ := h.expr.readable h'.expr (by decide) (by decide) heq
    exact ⟨halike, (List.cons.inj hrest).2⟩
  cases form with
  | expression =>
      cases form' with
      | expression =>
          obtain ⟨halike, hrest⟩ := hexpr hbehind
          exact ⟨⟨rfl, halike⟩, hrest⟩
      | print | var => exact absurd hword (by simp [Form.word])
  | print =>
      cases form' with
      | print =>
          obtain ⟨halike, hrest⟩ := hexpr hbehind
          exact ⟨⟨rfl, halike⟩, hrest⟩
      | expression | var => exact absurd hword (by simp [Form.word])
  | var name =>
      cases form' with
      | var name' =>
          have hname := h.named name rfl
          have hname' := h'.named name' rfl
          simp only [Form.bound, List.append_assoc, List.singleton_append] at hbehind
          obtain ⟨hlexeme, hvalue⟩ :=
            Lexeme.append_cons_inj hname.space_not_mem hname'.space_not_mem hbehind
          obtain ⟨halike, hrest⟩ := hexpr hvalue
          have hplaces :=
            hname.written.unplaced_eq hname'.written (String.toList_inj.mp hlexeme)
          exact ⟨⟨congrArg Form.var hplaces, halike⟩, hrest⟩
      | expression | print => exact absurd hword (by simp [Form.word])

end Stmt

/-! ### Trees of a text -/

theorem legible_of_mem_statementsOf {levels : Nat} {source : String} :
    ∀ s ∈ statementsOf levels source, s.Legible := by
  intro s hs
  cases hscan : Token.scan source with
  | error e =>
      rw [statementsOf, hscan] at hs
      contradiction
  | ok tokens =>
      rw [statementsOf, hscan] at hs
      exact Program.legible_of_mem hscan hs

/-- The lines that show the trees of two texts are the same exactly if the trees are alike, one by
one: they differ in nothing but the places of their tokens, except that the infinite number and
the name that is written like it stand for each other. -/
theorem treeDump_tells_statements (levels : Nat) (source source' : String) :
    treeDump (statementsOf levels source) = treeDump (statementsOf levels source') ↔
      List.Forall₂ Stmt.Alike (statementsOf levels source) (statementsOf levels source') := by
  constructor
  · exact Text.forall₂_of_linesOf_eq Stmt.Legible.display_append_inj legible_of_mem_statementsOf
      legible_of_mem_statementsOf
  · exact fun halike => Text.linesOf_congr (halike.imp fun _ _ h => h.display_eq)

end MiniLox
