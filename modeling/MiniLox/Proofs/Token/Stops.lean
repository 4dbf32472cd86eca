import MiniLox.Proofs.Token.Split

/-!
How far a scan gets. Items are taken off the front of a text until the text is
used up or no item starts at what is left. Up to that place the scan has made
the tokens of the items, and from there on it goes as a scan of the rest alone
would. If no item starts there, the first character of the rest is one that
starts none, or it is the quote of a string that never ends.
-/

namespace MiniLox

namespace Lexeme

/-- The items at the front of a text, each the longest at its place, up to some
rest. -/
inductive Leading : List (Lexeme × List Char) → (s rest : List Char) → Prop where
  | nil {s : List Char} : Leading [] s s
  | cons {lexeme : Lexeme} {u v rest : List Char} {items : List (Lexeme × List Char)}
      (hspells : lexeme.Spells u) (hlongest : Longest u v) (hrest : Leading items v rest) :
      Leading ((lexeme, u) :: items) (u ++ v) rest

/-- The characters that some items cover. -/
def covered (items : List (Lexeme × List Char)) : List Char := items.flatMap Prod.snd

@[simp] theorem covered_nil : covered [] = [] := rfl

@[simp] theorem covered_cons (item : Lexeme × List Char) (items : List (Lexeme × List Char)) :
    covered (item :: items) = item.2 ++ covered items := List.flatMap_cons

variable {items : List (Lexeme × List Char)} {s rest : List Char} {c : Char} {cs : List Char}

theorem Leading.covered_append (h : Leading items s rest) : covered items ++ rest = s := by
  induction h with
  | nil => rfl
  | cons hspells hlongest hrest ih => rw [covered_cons, List.append_assoc, ih]

/-- A text is made up of the items that lead to its end. -/
theorem Split.leading (h : Split items s) : Leading items s [] := by
  induction h with
  | nil => exact .nil
  | cons hspells hlongest hrest ih => exact .cons hspells hlongest ih

/-- No item is the end of a text. -/
theorem Spells.kind_ne_endOfText {kind : Kind} {literal : Option Value} {u : List Char}
    (h : Spells (.token kind literal) u) : kind ≠ .endOfText := by
  cases h with
  | symbol h =>
      have hall : ∀ entry ∈ symbols, entry.2 ≠ .endOfText := by decide
      exact hall _ h
  | keyword h =>
      have hall : ∀ entry ∈ Kind.keywords, entry.2 ≠ .endOfText := by decide
      exact hall _ h
  | identifier | whole | fractional | string => exact fun hkind => nomatch hkind

/-! ### Where no item starts -/

/-- No item starts at a place exactly if none is taken there. -/
theorem exists_next_eq_error_iff :
    (∃ fault, next c cs = .error fault) ↔
      ∀ (lexeme : Lexeme) (u v : List Char), lexeme.Spells u → u ++ v ≠ c :: cs := by
  constructor
  · rintro ⟨fault, hnext⟩ lexeme u v hspells happ
    obtain ⟨longest, u', v', htakes, happ', -⟩ := hspells.exists_takes v
    cases htakes with
    | @intro c' cs' item hitem =>
        cases (item.append_eq.symm.trans happ').trans happ
        cases hnext.symm.trans hitem
  · intro hnone
    cases hnext : next c cs with
    | error fault => exact ⟨fault, rfl⟩
    | ok item => exact absurd item.append_eq (hnone _ _ _ (spells_of_next hnext))

theorem quoted_eq_error {fault : Fault} (h : quoted cs = .error fault) :
    fault = .unterminated ∧ '"' ∉ cs := by
  unfold quoted at h
  split at h
  · next hdrop =>
    cases h
    refine ⟨rfl, fun hmem => ?_⟩
    have happ := List.takeWhile_append_dropWhile (p := fun c => decide (c ≠ '"')) (l := cs)
    rw [hdrop, List.append_nil] at happ
    rw [← happ] at hmem
    simpa using of_mem_takeWhile hmem
  · contradiction

/-- The quote of a string that never ends is the one character that starts no
item because of what stands behind it. -/
theorem next_eq_error {fault : Fault} (h : next c cs = .error fault) :
    fault = .unterminated ∧ c = '"' ∧ '"' ∉ cs ∨
      fault = .unexpected c ∧ ∀ cs', next c cs' = .error (.unexpected c) := by
  unfold next at h
  split at h
  · obtain ⟨rfl, hcs⟩ := quoted_eq_error h
    exact .inl ⟨rfl, rfl, hcs⟩
  · contradiction
  · next hquote hslash =>
    refine .inr ?_
    -- None of the tests looks behind the first character.
    split at h
    · contradiction
    · next hblank =>
      split at h
      · contradiction
      · next hdigit =>
        split at h
        · contradiction
        · next hletter =>
          split at h
          · contradiction
          · contradiction
          · next hsymbol hpair =>
            cases h
            refine ⟨rfl, fun cs' => ?_⟩
            unfold next
            split
            · contradiction
            · contradiction
            · rw [if_neg hblank, if_neg hdigit, if_neg hletter, hsymbol, hpair]

end Lexeme

namespace Token

open Lexeme

variable {start : Position} {items : List (Lexeme × List Char)} {s rest : List Char} {e : ScanError}

/-- The tokens of a sequence of items that starts at a given place, without one
for the end. -/
def stamps (start : Position) : List (Lexeme × List Char) → List Token
  | [] => []
  | item :: items => (stamp? start item).toList ++ stamps (start.advance item.2) items

theorem ofItems_eq_stamps (start : Position) (items : List (Lexeme × List Char)) :
    ofItems start items = stamps start items ++ [atEnd (start.advance (covered items))] := by
  induction items generalizing start with
  | nil => rfl
  | cons item items ih =>
      rw [ofItems, stamps, ih, covered_cons, Position.advance_append, List.append_assoc]

theorem kind_of_mem_stamps (h : Leading items s rest) {t : Token}
    (ht : t ∈ stamps start items) : t.kind ≠ .endOfText := by
  induction h generalizing start with
  | nil => contradiction
  | @cons lexeme u v rest items hspells hlongest hrest ih =>
      rcases List.mem_append.mp ht with ht | ht
      · cases lexeme with
        | blank | comment => contradiction
        | token kind literal =>
            obtain rfl := List.mem_singleton.mp ht
            exact hspells.kind_ne_endOfText
      · exact ih ht

theorem scanFrom_of_takes {lexeme : Lexeme} {u v : List Char} (h : Takes lexeme u v) :
    scanFrom start (u ++ v) =
      (scanFrom (start.advance u) v).map ((stamp? start (lexeme, u)).toList ++ ·) := by
  cases h with
  | @intro c cs item hnext =>
      rw [item.append_eq, scanFrom, hnext, ← ofItem?_eq_stamp?]
      dsimp only
      cases scanFrom (start.advance item.covered) item.rest <;> rfl

/-- From the rest on a scan goes as a scan of the rest would. -/
theorem scanFrom_of_leading (h : Leading items s rest) :
    scanFrom start s =
      (scanFrom (start.advance (covered items)) rest).map (stamps start items ++ ·) := by
  induction h generalizing start with
  | nil =>
      show _ = (scanFrom start _).map id
      rw [Except.map_id]
      rfl
  | @cons lexeme u v rest items hspells hlongest hrest ih =>
      rw [scanFrom_of_takes (takes_iff.mpr ⟨hspells, hlongest⟩), ih, covered_cons,
        Position.advance_append]
      cases scanFrom ((start.advance u).advance (covered items)) rest with
      | error e => rfl
      | ok tokens =>
          show Except.ok (_ ++ (_ ++ tokens)) = Except.ok (_ ++ _ ++ tokens)
          rw [List.append_assoc]

/-- A scan fails where no item starts. -/
theorem scanFrom_eq_error_iff :
    scanFrom start s = .error e ↔
      ∃ items c cs fault, Leading items s (c :: cs) ∧ next c cs = .error fault ∧
        e = .ofFault fault (start.advance (covered items)) (c :: cs) := by
  constructor
  · intro h
    fun_induction scanFrom start s with
    | case1 start => contradiction
    | case2 start c cs fault hnext =>
        cases h
        exact ⟨[], c, cs, fault, .nil, hnext, rfl⟩
    | case3 start c cs item hnext e' hrest ih =>
        cases h
        obtain ⟨items, c', cs', fault, hleading, hfault, rfl⟩ := ih hrest
        have htakes := Takes.intro hnext
        have hleading' := Leading.cons htakes.spells htakes.longest hleading
        rw [item.append_eq] at hleading'
        refine ⟨_, c', cs', fault, hleading', hfault, ?_⟩
        rw [covered_cons, Position.advance_append]
    | case4 => contradiction
  · rintro ⟨items, c, cs, fault, hleading, hnext, rfl⟩
    rw [scanFrom_of_leading hleading, scanFrom, hnext]
    rfl

/-- The error that a scan of a text ends in, if it does. -/
def scanError? (source : String) : Option ScanError :=
  match scan source with
  | .error e => some e
  | .ok _ => none

theorem scanError?_eq_some_iff {source : String} :
    scanError? source = some e ↔ scan source = .error e := by
  unfold scanError?
  cases scan source <;> simp

theorem scanError?_eq_none_iff {source : String} :
    scanError? source = none ↔ ∃ tokens, scan source = .ok tokens := by
  unfold scanError?
  cases scan source <;> simp

end Token

end MiniLox
