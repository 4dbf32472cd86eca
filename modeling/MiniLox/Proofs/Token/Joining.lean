import MiniLox.Proofs.Text.Lines
import MiniLox.Proofs.Token.Stops

/-!
Texts with a newline between them. No item goes on over a newline but the one
that is open there, a string; so what can be scanned up to the end of a text is
scanned the same with a newline and more text behind. Behind the newline a scan
starts as at the front of a text, some lines further down.
-/

namespace MiniLox

/-! ### The same, some lines further down -/

/-- The place some lines further down. -/
def Position.lowered (k : Nat) (p : Position) : Position := { p with line := p.line + k }

/-- The token some lines further down. -/
def Token.lowered (k : Nat) (t : Token) : Token := { t with line := t.line + k }

/-- The error some lines further down. -/
def ScanError.lowered (k : Nat) (e : ScanError) : ScanError := { e with line := e.line + k }

namespace Position

variable (k : Nat) (p : Position)

theorem step_lowered (c : Char) : (p.lowered k).step c = (p.step c).lowered k := by
  unfold step
  split
  · show mk _ _ = mk _ _
    congr 1
    show p.line + k + 1 = p.line + 1 + k
    omega
  · rfl

theorem advance_lowered (s : List Char) : (p.lowered k).advance s = (p.advance s).lowered k := by
  induction s generalizing p with
  | nil => rfl
  | cons c s ih => rw [advance_cons, advance_cons, step_lowered, ih]

end Position

theorem ScanError.ofFault_lowered (k : Nat) (fault : Lexeme.Fault) (start : Position)
    (s : List Char) : ofFault fault (start.lowered k) s = (ofFault fault start s).lowered k := by
  cases fault with
  | unexpected c => rfl
  | unterminated =>
      show mk _ ((start.lowered k).advance s).line = _
      rw [Position.advance_lowered]
      rfl

namespace Token

open Lexeme

variable (k : Nat) (start : Position)

theorem stamp?_lowered (item : Lexeme × List Char) :
    stamp? (start.lowered k) item = (stamp? start item).map (lowered k) := by
  obtain ⟨lexeme, covered⟩ := item
  cases lexeme with
  | blank | comment => rfl
  | token kind literal =>
      simp only [stamp?, Position.advance_lowered, Option.map_some]
      rfl

/-- A scan that starts further down makes the same of the text, further down. -/
theorem scanFrom_lowered (s : List Char) :
    scanFrom (start.lowered k) s =
      ((scanFrom start s).map (List.map (lowered k))).mapError (ScanError.lowered k) := by
  fun_induction scanFrom start s with
  | case1 start => rw [scanFrom]; rfl
  | case2 start c cs fault hnext =>
      rw [scanFrom, hnext]
      exact congrArg Except.error (ScanError.ofFault_lowered k fault start (c :: cs))
  | case3 start c cs item hnext e hrest ih =>
      rw [hrest] at ih
      rw [scanFrom, hnext]
      dsimp only
      rw [Position.advance_lowered, ih]
      rfl
  | case4 start c cs item hnext tokens hrest ih =>
      rw [hrest] at ih
      rw [scanFrom, hnext]
      dsimp only
      rw [Position.advance_lowered, ih, ofItem?_eq_stamp?, ofItem?_eq_stamp?, stamp?_lowered]
      show Except.ok _ = Except.ok _
      rw [List.map_append]
      cases stamp? start (item.lexeme, item.covered) <;> rfl

end Token

/-! ### Items before a newline -/

namespace Lexeme

variable {lexeme : Lexeme} {u v t : List Char} {items : List (Lexeme × List Char)}
  {s rest : List Char}

/-- What stands in front of a newline reaches as far as what is no newline. -/
theorem exists_eq_cons_of_append_newline {c : Char} (h : v ++ '\n' :: t = c :: rest)
    (hc : c ≠ '\n') : ∃ v', v = c :: v' ∧ v' ++ '\n' :: t = rest := by
  cases v with
  | nil =>
      cases h
      contradiction
  | cons d v =>
      cases h
      exact ⟨v, rfl, rfl⟩

/-- Nothing carries an item on over a newline. -/
theorem CarriesOn.of_append_newline (h : CarriesOn lexeme u (v ++ '\n' :: t)) :
    CarriesOn lexeme u v := by
  have hne (accepts : Char → Bool) {c : Char} (hc : accepts c = true)
      (hnewline : accepts '\n' = false) : c ≠ '\n' := by
    rintro rfl
    exact absurd (hc.symm.trans hnewline) Bool.noConfusion
  generalize hv : v ++ '\n' :: t = w at h
  cases h with
  | word hkind hc =>
      obtain ⟨v, rfl, -⟩ := exists_eq_cons_of_append_newline hv (hne isWordPart hc rfl)
      exact .word hkind hc
  | digit hc =>
      obtain ⟨v, rfl, -⟩ := exists_eq_cons_of_append_newline hv (hne isDigit hc rfl)
      exact .digit hc
  | point htext hc =>
      -- A point alone does not carry a number on, it takes a digit behind it.
      obtain ⟨v, rfl, hbehind⟩ := exists_eq_cons_of_append_newline hv (by decide)
      obtain ⟨v, rfl, -⟩ := exists_eq_cons_of_append_newline hbehind (hne isDigit hc rfl)
      exact .point htext hc
  | equal hkind =>
      obtain ⟨v, rfl, -⟩ := exists_eq_cons_of_append_newline hv (by decide)
      exact .equal hkind
  | slash =>
      obtain ⟨v, rfl, -⟩ := exists_eq_cons_of_append_newline hv (by decide)
      exact .slash
  | comment hc =>
      obtain ⟨v, rfl, -⟩ := exists_eq_cons_of_append_newline hv hc
      exact .comment hc

theorem Longest.append_newline (hspells : lexeme.Spells u) (h : Longest u v) (t : List Char) :
    Longest u (v ++ '\n' :: t) :=
  hspells.longest_iff.mpr fun hcarries => hspells.longest_iff.mp h hcarries.of_append_newline

/-- The items at the front of a text stay what they are with a newline and more
text behind. -/
theorem Leading.append_newline (h : Leading items s rest) (t : List Char) :
    Leading items (s ++ '\n' :: t) (rest ++ '\n' :: t) := by
  induction h with
  | nil => exact .nil
  | cons hspells hlongest hrest ih =>
      rw [List.append_assoc]
      exact .cons hspells (hlongest.append_newline hspells t) ih

end Lexeme

namespace Token

open Lexeme

/-- Over the newline behind some items a scan comes to a first column, one line
further down for each newline. -/
theorem scanFrom_append_newline {items : List (Lexeme × List Char)} {s : List Char}
    (h : Split items s) (t : List Char) :
    scanFrom {} (s ++ '\n' :: t) =
      (scanFrom (({} : Position).lowered (s.count '\n' + 1)) t).map (stamps {} items ++ ·) := by
  have hblank : Takes .blank ['\n'] t := .intro (next_of_isBlank rfl t)
  have hplace : (({} : Position).advance (covered items)).step '\n' =
      ({} : Position).lowered (s.count '\n' + 1) := by
    have hcovered := h.leading.covered_append
    rw [List.append_nil] at hcovered
    show Position.mk _ _ = Position.mk _ _
    rw [hcovered, Position.line_advance]
    rfl
  have hnewline : scanFrom (({} : Position).advance (covered items)) ('\n' :: t) =
      (scanFrom (({} : Position).lowered (s.count '\n' + 1)) t).map ([] ++ ·) := by
    rw [← hplace]
    exact scanFrom_of_takes hblank
  rw [scanFrom_of_leading (h.leading.append_newline t), List.nil_append, hnewline]
  cases scanFrom (({} : Position).lowered (s.count '\n' + 1)) t <;> rfl

theorem toList_append_newline (a b : String) :
    (a ++ "\n" ++ b).toList = a.toList ++ '\n' :: b.toList := by
  simp

/-- A newline separates what is scanned before it from what is scanned behind
it. If the text before it has tokens, the whole has these, without the one for
the end, and behind them the tokens of the text behind it, so many lines further
down; or the scan fails as that of the text behind it does, so many lines
further down. If the text before it has a character that starts no item, the
scan of the whole fails there. -/
theorem scan_append_newline (a b : String) :
    (∀ tokens, scan a = .ok tokens →
      let k := a.toList.count '\n' + 1
      ∃ body p, tokens = body ++ [atEnd p] ∧ (∀ t ∈ body, t.kind ≠ .endOfText) ∧
        (∀ tokens', scan b = .ok tokens' →
          scan (a ++ "\n" ++ b) = .ok (body ++ tokens'.map (lowered k))) ∧
        ∀ e, scan b = .error e → scan (a ++ "\n" ++ b) = .error (e.lowered k)) ∧
    ∀ e c, scan a = .error e → e.fault = .unexpected c → scan (a ++ "\n" ++ b) = .error e := by
  constructor
  · intro tokens hscan k
    obtain ⟨items, hsplit, rfl⟩ := scanFrom_eq_ok_iff.mp hscan
    have hwhole : scan (a ++ "\n" ++ b) =
        (((scan b).map (List.map (lowered k))).mapError (ScanError.lowered k)).map
          (stamps {} items ++ ·) := by
      rw [scan, toList_append_newline, scanFrom_append_newline hsplit, scanFrom_lowered]
      rfl
    refine ⟨stamps {} items, _, ofItems_eq_stamps {} items,
      fun t ht => kind_of_mem_stamps hsplit.leading ht, fun tokens' hscan' => ?_,
      fun e hscan' => ?_⟩
    · rw [hwhole, hscan']
      rfl
    · rw [hwhole, hscan']
      rfl
  · intro e c hscan hfault
    obtain ⟨items, d, cs, fault, hleading, hnext, rfl⟩ := scanFrom_eq_error_iff.mp hscan
    obtain rfl : fault = .unexpected c := hfault
    rcases next_eq_error hnext with ⟨hunterminated, -⟩ | ⟨hd, hbehind⟩
    · contradiction
    · obtain rfl : c = d := Fault.unexpected.inj hd
      rw [scan, toList_append_newline]
      exact scanFrom_eq_error_iff.mpr
        ⟨items, c, _, _, hleading.append_newline b.toList, hbehind _, rfl⟩

/-- A text that ends in a point, in front of a string over two lines and in
front of one that never ends; and a text with a character that starts no
item. -/
theorem scan_append_newline_point :
    (∃ body tokens', scan "\"p\nq\" // r" = .ok tokens' ∧
        scan "a =\n1.\n\"p\nq\" // r" = .ok (body ++ tokens'.map (lowered 2)) ∧
        body.map lexeme = ["a", "=", "1", "."]) ∧
      scan "a =\n1.\n\"p\n" = .error { fault := .unterminated, line := 4 } ∧
      scan "1. #\n2" = .error { fault := .unexpected '#', line := 1 } := by
  obtain ⟨tokens, hscan⟩ := scanError?_eq_none_iff.mp
    (show scanError? "a =\n1." = none by decide +kernel)
  obtain ⟨tokens', hscan'⟩ := scanError?_eq_none_iff.mp
    (show scanError? "\"p\nq\" // r" = none by decide +kernel)
  have hopen : scan "\"p\n" = .error { fault := .unterminated, line := 2 } :=
    scanError?_eq_some_iff.mp (by decide +kernel)
  have hodd : scan "1. #" = .error { fault := .unexpected '#', line := 1 } :=
    scanError?_eq_some_iff.mp (by decide +kernel)
  have hlexemes : (scan "a =\n1.").toOption.map (List.map lexeme) =
      some ["a", "=", "1", ".", ""] := by
    decide +kernel
  rw [hscan] at hlexemes
  obtain ⟨body, p, rfl, -, hjoined, -⟩ :=
    (scan_append_newline "a =\n1." "\"p\nq\" // r").1 tokens hscan
  obtain ⟨-, -, -, -, -, hfails⟩ := (scan_append_newline "a =\n1." "\"p\n").1 _ hscan
  refine ⟨⟨body, tokens', hscan', hjoined tokens' hscan', ?_⟩, hfails _ hopen,
    (scan_append_newline "1. #" "2").2 _ '#' hodd rfl⟩
  have hall : (body ++ [atEnd p]).map lexeme = ["a", "=", "1", "."] ++ [""] :=
    Option.some.inj hlexemes
  rw [List.map_append] at hall
  exact List.append_cancel_right hall

end Token

end MiniLox
