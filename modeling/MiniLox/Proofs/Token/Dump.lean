import Mathlib.Data.List.Forall2
import MiniLox.Runner
import MiniLox.Proofs.Evaluation.Placement
import MiniLox.Proofs.Text.Dumps
import MiniLox.Proofs.Token.Stops

/-!
What the lines that show the tokens of a text tell about the tokens. A string is
shown as it stands, so its newlines and spaces look like the ends of lines and of
columns. But no string holds a quote and nothing else begins with one: where the
lexeme of a token ends can be told from the characters up to there. So the lines
can be read back, and only the columns of the tokens are lost.
-/

namespace MiniLox

/-- A string stands in quotes and holds none. All other items have neither spaces nor quotes. -/
theorem Lexeme.Spells.quoted_or_plain {kind : Kind} {literal : Option Value} {u : List Char}
    (h : Spells (.token kind literal) u) :
    (∃ body, '"' ∉ body ∧ u = '"' :: (body ++ ['"'])) ∨ ' ' ∉ u ∧ '"' ∉ u := by
  by_cases hkind : kind = .string
  · subst hkind
    left
    cases h with
    | symbol h =>
        have hall : ∀ entry ∈ symbols, entry.2 ≠ .string := by decide
        exact absurd rfl (hall _ h)
    | keyword h =>
        have hall : ∀ entry ∈ Kind.keywords, entry.2 ≠ .string := by decide
        exact absurd rfl (hall _ h)
    | string h => exact ⟨_, h, rfl⟩
  · right
    exact ⟨h.not_mem hkind (by decide) (by decide), h.not_mem hkind (by decide) (by decide)⟩

namespace Token

variable {t t' : Token} {r r' : List Char}

/-- The tokens differ in nothing but their columns. -/
structure Agrees (t t' : Token) : Prop where
  kind : t.kind = t'.kind
  lexeme : t.lexeme = t'.lexeme
  literal : t.literal = t'.literal
  line : t.line = t'.line

theorem IsWritten.quoted_or_plain (h : t.IsWritten) :
    (∃ body, '"' ∉ body ∧ t.lexeme.toList = '"' :: (body ++ ['"'])) ∨
      ' ' ∉ t.lexeme.toList ∧ '"' ∉ t.lexeme.toList := by
  rcases h with ⟨-, hempty, -⟩ | hspells
  · right
    simp [hempty]
  · exact hspells.quoted_or_plain

/-- A lexeme in front of a space ends where it ends, whatever follows. -/
theorem IsWritten.lexeme_append_inj (h : t.IsWritten) (h' : t'.IsWritten)
    (happ : t.lexeme.toList ++ ' ' :: r = t'.lexeme.toList ++ ' ' :: r') :
    t.lexeme = t'.lexeme ∧ r = r' := by
  -- A quote in front is that of a string.
  have hfront {body u s s' : List Char} (hu : '"' ∉ u) :
      '"' :: (body ++ ['"']) ++ s ≠ u ++ ' ' :: s' := by
    intro heq
    cases u with
    | nil => simp at heq
    | cons c u => exact hu ((List.cons.inj heq).1 ▸ List.mem_cons_self ..)
  rw [← String.toList_inj]
  rcases h.quoted_or_plain with ⟨body, hbody, hlexeme⟩ | ⟨hspace, hquote⟩
  · rcases h'.quoted_or_plain with ⟨body', hbody', hlexeme'⟩ | ⟨hspace', hquote'⟩
    · rw [hlexeme, hlexeme'] at happ ⊢
      have hinner : body ++ '"' :: ' ' :: r = body' ++ '"' :: ' ' :: r' := by simpa using happ
      obtain ⟨rfl, hrest⟩ := Lexeme.append_cons_inj hbody hbody' hinner
      exact ⟨rfl, (List.cons.inj hrest).2⟩
    · rw [hlexeme] at happ
      exact absurd happ (hfront hquote')
  · rcases h'.quoted_or_plain with ⟨body', hbody', hlexeme'⟩ | ⟨hspace', hquote'⟩
    · rw [hlexeme'] at happ
      exact absurd happ.symm (hfront hquote)
    · exact Lexeme.append_cons_inj hspace hspace' happ

theorem toList_text (t : Token) :
    t.text.toList =
      t.kind.name.toList ++ ' ' :: (t.lexeme.toList ++ ' ' :: t.line.repr.toList) := by
  have hspace : " ".toList = [' '] := rfl
  simp only [text, toString, String.toList_append, hspace]
  simp

theorem space_not_mem_name (k : Kind) : ' ' ∉ k.name.toList := by
  cases k <;> decide

theorem not_mem_repr {c : Char} (hc : c.isDigit = false) (n : Nat) : c ∉ n.repr.toList := by
  rw [Nat.repr_eq_ofList_toDigits, String.toList_ofList]
  intro hmem
  exact absurd (Nat.isDigit_of_mem_toDigits (by decide) (by decide) hmem) (by simp [hc])

theorem newline_not_mem_repr (n : Int) : '\n' ∉ n.repr.toList := by
  cases n with
  | ofNat m => exact not_mem_repr (by decide) m
  | negSucc m =>
      rw [Int.repr, String.toList_append, List.mem_append, not_or]
      exact ⟨by decide, not_mem_repr (by decide) _⟩

/-- No digit is a minus sign. -/
theorem repr_ne_minus_append (m n : Nat) : m.repr ≠ "-" ++ n.repr := by
  intro h
  have hminus : '-' ∈ m.repr.toList := by
    rw [h]
    simp
  exact not_mem_repr (by decide) m hminus

theorem eq_of_digits_eq {m n : Nat} (h : m.repr = n.repr) : m = n := by
  rw [Nat.repr_eq_ofList_toDigits, Nat.repr_eq_ofList_toDigits] at h
  rw [← @Nat.ofDigitChars_ten_toDigits m, String.ofList_injective h, Nat.ofDigitChars_ten_toDigits]

/-- A line number is told by its sign and its digits. -/
theorem eq_of_repr_eq {m n : Int} (h : m.repr = n.repr) : m = n := by
  cases m with
  | ofNat m =>
      cases n with
      | ofNat n => exact congrArg Int.ofNat (eq_of_digits_eq h)
      | negSucc n => exact absurd h (repr_ne_minus_append m _)
  | negSucc m =>
      cases n with
      | ofNat n => exact absurd h.symm (repr_ne_minus_append n _)
      | negSucc n =>
          have hdigits := eq_of_digits_eq ((String.append_right_inj "-").mp h)
          exact congrArg Int.negSucc (Nat.succ.inj hdigits)

/-- The text of a token in front of a newline tells which token it is and ends where it ends,
whatever follows. -/
theorem IsWritten.text_append_inj (h : t.IsWritten) (h' : t'.IsWritten)
    (happ : t.text.toList ++ '\n' :: r = t'.text.toList ++ '\n' :: r') :
    t.Agrees t' ∧ r = r' := by
  simp only [toList_text, List.append_assoc, List.cons_append] at happ
  obtain ⟨-, hbehind⟩ :=
    Lexeme.append_cons_inj (space_not_mem_name t.kind) (space_not_mem_name t'.kind) happ
  obtain ⟨hlexeme, hline⟩ := h.lexeme_append_inj h' hbehind
  obtain ⟨hrepr, hrest⟩ :=
    Lexeme.append_cons_inj (newline_not_mem_repr t.line) (newline_not_mem_repr t'.line) hline
  obtain ⟨hkind, hliteral⟩ := h.eq_of_lexeme_eq h' hlexeme
  exact ⟨⟨hkind, hlexeme, hliteral, eq_of_repr_eq (String.toList_inj.mp hrepr)⟩, hrest⟩

theorem Agrees.text_eq (h : t.Agrees t') : t.text = t'.text := by
  rw [text, text, h.kind, h.lexeme, h.line]

end Token

open Token

variable {tokens tokens' : List Token}

/-- The lines that show the tokens of two texts are the same exactly if the tokens are, up to
their columns. -/
theorem tokenDump_tells_tokens {source source' : String}
    (hscan : Token.scan source = .ok tokens) (hscan' : Token.scan source' = .ok tokens') :
    tokenDump tokens = tokenDump tokens' ↔ List.Forall₂ Token.Agrees tokens tokens' := by
  constructor
  · exact Text.forall₂_of_linesOf_eq IsWritten.text_append_inj
      (fun t ht => isWritten_of_mem_scan hscan ht) fun t ht => isWritten_of_mem_scan hscan' ht
  · exact fun hagree => Text.linesOf_congr (hagree.imp fun _ _ h => h.text_eq)

/-- Two numbers, and a string that looks like the lines of two numbers. -/
theorem tokenDump_tells_tokens_string :
    ∃ numbers string, Token.scan "1 2" = .ok numbers ∧
      Token.scan "\"1 1\nNUMBER 2\"" = .ok string ∧ tokenDump numbers ≠ tokenDump string := by
  obtain ⟨numbers, hnumbers⟩ := scanError?_eq_none_iff.mp
    (show scanError? "1 2" = none by decide +kernel)
  obtain ⟨string, hstring⟩ := scanError?_eq_none_iff.mp
    (show scanError? "\"1 1\nNUMBER 2\"" = none by decide +kernel)
  refine ⟨numbers, string, hnumbers, hstring, fun hdump => ?_⟩
  have hlength := ((tokenDump_tells_tokens hnumbers hstring).mp hdump).length_eq
  have hcounts : (Token.scan "1 2").toOption.map List.length = some 3 ∧
      (Token.scan "\"1 1\nNUMBER 2\"").toOption.map List.length = some 2 := by
    decide +kernel
  rw [hnumbers, hstring] at hcounts
  simp only [Except.toOption, Option.map_some, Option.some.injEq] at hcounts
  omega

end MiniLox
