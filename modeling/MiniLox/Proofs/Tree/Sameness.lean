import MiniLox.Proofs.Decimal.Rounding
import MiniLox.Proofs.Tree.Legible
import MiniLox.Tree.Basic

/-!
How far trees that are the same can be told apart. The only literals that
coincide without being equal are a boolean and the number that stands for it.
So two trees of scanned texts that are the same are equal up to the first such
pair, and from there on both their parenthesized forms and the types of their
literals differ: each of the two shows whether the trees are equal.
-/

namespace MiniLox

open Grammar hiding Failure

/-! ### Lists that go apart -/

/-- Two lists have different entries at some place. -/
def Differ {α : Type} (p q : List α) : Prop :=
  ∃ (i : Nat) (a b : α), p[i]? = some a ∧ q[i]? = some b ∧ a ≠ b

namespace Differ

variable {α : Type} {p q : List α}

theorem cons {a b : α} (h : a ≠ b) (p q : List α) : Differ (a :: p) (b :: q) :=
  ⟨0, a, b, rfl, rfl, h⟩

theorem ne (h : Differ p q) : p ≠ q := by
  rintro rfl
  obtain ⟨i, a, b, ha, hb, hab⟩ := h
  exact hab (Option.some.inj (ha.symm.trans hb))

theorem symm (h : Differ p q) : Differ q p := by
  obtain ⟨i, a, b, ha, hb, hab⟩ := h
  exact ⟨i, b, a, hb, ha, hab.symm⟩

theorem append_left (h : Differ p q) (before : List α) : Differ (before ++ p) (before ++ q) := by
  obtain ⟨i, a, b, ha, hb, hab⟩ := h
  refine ⟨before.length + i, a, b, ?_, ?_, hab⟩
  · rwa [List.getElem?_append_right (Nat.le_add_right ..), Nat.add_sub_cancel_left]
  · rwa [List.getElem?_append_right (Nat.le_add_right ..), Nat.add_sub_cancel_left]

theorem append_right (h : Differ p q) (x y : List α) : Differ (p ++ x) (q ++ y) := by
  obtain ⟨i, a, b, ha, hb, hab⟩ := h
  have hp := (List.getElem?_eq_some_iff.mp ha).1
  have hq := (List.getElem?_eq_some_iff.mp hb).1
  refine ⟨i, a, b, ?_, ?_, hab⟩
  · rwa [List.getElem?_append_left hp]
  · rwa [List.getElem?_append_left hq]

end Differ

/-! ### Literals -/

namespace Value

variable {v w : Value}

/-- The literal is shown as another one is not, and has another type. -/
structure Apart (v w : Value) : Prop where
  display : Differ (Expr.displayLiteral v).toList (Expr.displayLiteral w).toList
  type : v.type ≠ w.type

theorem Apart.symm (h : v.Apart w) : w.Apart v where
  display := h.display.symm
  type := h.type.symm

theorem ofTruth_ne_neg_zero (b : Bool) : ofTruth b ≠ -0 := by
  cases b <;> decide +kernel

/-- A boolean is shown as a word, and the number as a digit. -/
theorem boolean_apart_ofTruth (b : Bool) : (boolean b).Apart (number (ofTruth b)) where
  display := by
    have htext : (Expr.displayLiteral (number (ofTruth b))).toList = [if b then '1' else '0'] := by
      cases b <;> decide +kernel
    rw [htext]
    cases b with
    | false => exact .cons (by decide) "alse".toList []
    | true => exact .cons (by decide) "rue".toList []
  type := by
    rw [type_boolean, type_number]
    decide

theorem eq_or_apart_of_coincides (h : v.coincides w = true) (hv : v ≠ number (-0))
    (hw : w ≠ number (-0)) : v = w ∨ v.Apart w := by
  have hnumber {x : Float} (hx : number x ≠ number (-0)) : x ≠ -0 := mt (congrArg number) hx
  cases v with
  | nil =>
      cases w with
      | nil => exact .inl rfl
      | boolean | number | string => contradiction
  | boolean b =>
      cases w with
      | boolean c => exact .inl (congrArg boolean (eq_of_beq h))
      | number x =>
          obtain rfl := Binary64.eq_of_beq (ofTruth_ne_neg_zero b) (hnumber hw) h
          exact .inr (boolean_apart_ofTruth b)
      | nil | string => contradiction
  | number x =>
      cases w with
      | number y =>
          exact .inl (congrArg number (Binary64.eq_of_beq (hnumber hv) (hnumber hw) h))
      | boolean b =>
          obtain rfl := Binary64.eq_of_beq (hnumber hv) (ofTruth_ne_neg_zero b) h
          exact .inr (boolean_apart_ofTruth b).symm
      | nil | string => contradiction
  | string s =>
      cases w with
      | string t => exact .inl (congrArg string (eq_of_beq h))
      | nil | boolean | number => contradiction

end Value

/-- The operators and names of a tree have no literal, so they are the same
only if they are equal. -/
theorem Token.eq_of_same {t u : Token} (h : t.same u = true) (ht : t.literal = none) : t = u := by
  obtain ⟨kind, lexeme, literal, line, column⟩ := t
  obtain ⟨kind', lexeme', literal', line', column'⟩ := u
  obtain rfl : literal = none := ht
  simp only [same, Bool.and_eq_true, beq_iff_eq] at h
  obtain ⟨⟨⟨⟨rfl, rfl⟩, hliteral⟩, rfl⟩, rfl⟩ := h
  cases literal' with
  | none => rfl
  | some value => contradiction

/-! ### Parenthesized forms -/

theorem toList_parenthesized_pair (a b : String) :
    (parenthesized [a, b]).toList = ('(' :: (a.toList ++ [' '])) ++ (b.toList ++ [')']) := by
  simp [parenthesized, String.intercalate_cons_cons]

theorem toList_parenthesized_triple (a b c : String) :
    (parenthesized [a, b, c]).toList =
      ('(' :: (a.toList ++ [' '])) ++ (b.toList ++ (' ' :: (c.toList ++ [')']))) := by
  simp [parenthesized, String.intercalate_cons_cons]

namespace Differ

variable {b b' : String}

theorem pair (h : Differ b.toList b'.toList) (a : String) :
    Differ (parenthesized [a, b]).toList (parenthesized [a, b']).toList := by
  rw [toList_parenthesized_pair, toList_parenthesized_pair]
  exact (h.append_right _ _).append_left _

theorem middle (h : Differ b.toList b'.toList) (a c c' : String) :
    Differ (parenthesized [a, b, c]).toList (parenthesized [a, b', c']).toList := by
  rw [toList_parenthesized_triple, toList_parenthesized_triple]
  exact (h.append_right _ _).append_left _

theorem last (h : Differ b.toList b'.toList) (a c : String) :
    Differ (parenthesized [a, c, b]).toList (parenthesized [a, c, b']).toList := by
  rw [toList_parenthesized_triple, toList_parenthesized_triple]
  exact (((h.append_right _ _).append_left [' ']).append_left _).append_left _

end Differ

/-! ### Trees that go apart -/

namespace Expr

variable {e e' left left' right right' : Expr}

/-- The values of the literals of a tree, in their order. -/
def literals : Expr → List Value
  | literal v => [v]
  | group inner => inner.literals
  | name _ => []
  | unary _ right => right.literals
  | binary left _ right => left.literals ++ right.literals
  | misplaced _ body => body.literals

/-- The tree is shown as another one is not, and the types of its literals
are others. -/
structure Apart (e e' : Expr) : Prop where
  display : Differ e.display.toList e'.display.toList
  types : Differ (e.literals.map Value.type) (e'.literals.map Value.type)

namespace Apart

theorem literal {v w : Value} (h : v.Apart w) : (literal v).Apart (literal w) where
  display := h.display
  types := .cons h.type [] []

theorem group (h : e.Apart e') : (group e).Apart (group e') where
  display := h.display.pair "group"
  types := h.types

theorem unary (h : e.Apart e') (operator : Token) :
    (unary operator e).Apart (unary operator e') where
  display := h.display.pair operator.lexeme
  types := h.types

theorem binary_left (h : left.Apart left') (operator : Token) :
    (binary left operator right).Apart (binary left' operator right') where
  display := h.display.middle operator.lexeme right.display right'.display
  types := by
    rw [literals, literals, List.map_append, List.map_append]
    exact h.types.append_right _ _

theorem binary_right (h : right.Apart right') (operator : Token) :
    (binary left operator right).Apart (binary left operator right') where
  display := h.display.last operator.lexeme left.display
  types := by
    rw [literals, literals, List.map_append, List.map_append]
    exact h.types.append_left _

end Apart

/-- Every node has what a scanned text gives it: an operator or a name has no
literal, and no literal is the negative zero. -/
def Decoded : Expr → Prop
  | literal v => v ≠ .number (-0)
  | group inner => inner.Decoded
  | name token => token.literal = none
  | unary operator right => operator.literal = none ∧ right.Decoded
  | binary left operator right => left.Decoded ∧ operator.literal = none ∧ right.Decoded
  | misplaced _ _ => False

/-- By induction on the first tree: the parts of the two are the same, and where
the first of them go apart the trees do. -/
theorem eq_or_apart_of_same (h : e.same e' = true) (he : e.Decoded) (he' : e'.Decoded) :
    e = e' ∨ e.Apart e' := by
  induction e generalizing e' with
  | literal v =>
      cases e' with
      | literal w =>
          rcases Value.eq_or_apart_of_coincides h he he' with rfl | hapart
          · exact .inl rfl
          · exact .inr (.literal hapart)
      | _ => contradiction
  | group inner ih =>
      cases e' with
      | group inner' =>
          rcases ih h he he' with rfl | hapart
          · exact .inl rfl
          · exact .inr hapart.group
      | _ => contradiction
  | name token =>
      cases e' with
      | name token' => exact .inl (congrArg name (Token.eq_of_same h he))
      | _ => contradiction
  | unary operator right ih =>
      cases e' with
      | unary operator' right' =>
          rw [same, Bool.and_eq_true] at h
          obtain rfl := Token.eq_of_same h.1 he.1
          rcases ih h.2 he.2 he'.2 with rfl | hapart
          · exact .inl rfl
          · exact .inr (hapart.unary operator)
      | _ => contradiction
  | binary left operator right ihleft ihright =>
      cases e' with
      | binary left' operator' right' =>
          obtain ⟨hleft, hoperator, hright⟩ := he
          obtain ⟨hleft', -, hright'⟩ := he'
          rw [same, Bool.and_eq_true, Bool.and_eq_true] at h
          obtain ⟨⟨hsameleft, hsame⟩, hsameright⟩ := h
          obtain rfl := Token.eq_of_same hsame hoperator
          rcases ihleft hsameleft hleft hleft' with rfl | hapart
          · rcases ihright hsameright hright hright' with rfl | hapart
            · exact .inl rfl
            · exact .inr (hapart.binary_right operator)
          · exact .inr (hapart.binary_left operator)
      | _ => contradiction
  | misplaced form body => exact he.elim

end Expr

/-! ### Statements -/

/-- The statement binds a name that has no literal, if any, and its expression
is decoded. -/
def Stmt.Decoded (s : Stmt) : Prop :=
  (∀ name, s.form = .var name → name.literal = none) ∧ s.expr.Decoded

theorem Form.eq_of_same {f g : Form} (h : f.same g = true)
    (hf : ∀ name, f = .var name → name.literal = none) : f = g := by
  cases f with
  | expression | print =>
      cases g with
      | _ => first | rfl | contradiction
  | var name =>
      cases g with
      | var name' => exact congrArg Form.var (Token.eq_of_same h (hf name rfl))
      | _ => contradiction

theorem Stmt.eq_or_apart_of_same {s t : Stmt} (h : s.same t = true) (hs : s.Decoded)
    (ht : t.Decoded) : s = t ∨ s.display ≠ t.display ∧ s.expr.Apart t.expr := by
  obtain ⟨form, e⟩ := s
  obtain ⟨form', e'⟩ := t
  rw [same, Bool.and_eq_true] at h
  obtain rfl : form = form' := Form.eq_of_same h.1 hs.1
  rcases Expr.eq_or_apart_of_same h.2 hs.2 ht.2 with rfl | hapart
  · exact .inl rfl
  · have hdisplay : Differ (Stmt.display ⟨form, e⟩).toList (Stmt.display ⟨form, e'⟩).toList := by
      cases form with
      | expression => exact hapart.display.pair "expr"
      | print => exact hapart.display.pair "print"
      | var name => exact hapart.display.last "var" name.lexeme
    exact .inr ⟨fun heq => hdisplay.ne (congrArg String.toList heq), hapart⟩

/-- The types of the literals of a program, in their order. -/
def literalTypes (ss : List Stmt) : List ValueType :=
  ss.flatMap fun s => s.expr.literals.map Value.type

/-- Two programs that are the same are equal, or both their statements as they
are shown and the types of their literals tell them apart. -/
theorem eq_or_apart_of_samePrograms {ss ts : List Stmt} (h : samePrograms ss ts = true)
    (hss : ∀ s ∈ ss, s.Decoded) (hts : ∀ t ∈ ts, t.Decoded) :
    ss = ts ∨ ss.map Stmt.display ≠ ts.map Stmt.display ∧
      Differ (literalTypes ss) (literalTypes ts) := by
  induction ss generalizing ts with
  | nil =>
      cases ts with
      | nil => exact .inl rfl
      | cons t ts => contradiction
  | cons s ss ih =>
      cases ts with
      | nil => contradiction
      | cons t ts =>
          rw [samePrograms, Bool.and_eq_true] at h
          have hlater := ih h.2 (fun s' hs' => hss s' (List.mem_cons_of_mem s hs'))
            fun t' ht' => hts t' (List.mem_cons_of_mem t ht')
          rcases Stmt.eq_or_apart_of_same h.1 (hss s (List.mem_cons_self ..))
            (hts t (List.mem_cons_self ..)) with rfl | ⟨hdisplay, hapart⟩
          · rcases hlater with rfl | ⟨hdisplay, htypes⟩
            · exact .inl rfl
            · refine .inr ⟨fun heq => hdisplay (List.cons.inj heq).2, ?_⟩
              exact htypes.append_left _
          · refine .inr ⟨fun heq => hdisplay (List.cons.inj heq).1, ?_⟩
            exact hapart.types.append_right _ _

/-! ### Trees of a text -/

theorem Expr.Legible.decoded {e : Expr} (h : e.Legible) : e.Decoded := by
  induction e with
  | literal v =>
      rintro rfl
      obtain ⟨d, hd⟩ := h
      exact d.toFloat_ne_neg_zero hd.symm
  | group inner ih => exact ih h
  | name token => exact Token.IsName.literal_eq_none h
  | unary operator right ih => exact ⟨h.1.literal_eq_none, ih h.2⟩
  | binary left operator right ihleft ihright =>
      exact ⟨ihleft h.1, h.2.1.literal_eq_none, ihright h.2.2⟩
  | misplaced form body => exact h.elim

theorem Grammar.Program.decoded_of_mem {levels : Nat} {source : String} {tokens : List Token}
    (hscan : Token.scan source = .ok tokens) {s : Stmt}
    (hs : s ∈ (ofTokens levels tokens).statements) : s.Decoded := by
  have hlegible := legible_of_mem hscan hs
  exact ⟨fun name hform => (hlegible.named name hform).literal_eq_none, hlegible.expr.decoded⟩

/-- The statements of a text, none if it cannot be scanned. -/
def statementsOf (levels : Nat) (source : String) : List Stmt :=
  (Token.scan source).toOption.elim [] fun tokens => (Program.ofTokens levels tokens).statements

theorem exists_tokens_of_statementsOf (levels : Nat) (source : String)
    (h : (statementsOf levels source).isEmpty = false) :
    ∃ tokens, Token.scan source = .ok tokens ∧
      (Program.ofTokens levels tokens).statements = statementsOf levels source := by
  cases hscan : Token.scan source with
  | error e =>
      rw [statementsOf, hscan] at h
      contradiction
  | ok tokens =>
      refine ⟨tokens, rfl, ?_⟩
      rw [statementsOf, hscan]
      rfl

/-- Two texts whose programs are the same have equal programs exactly if the
types of their literals line up, and exactly then the programs are shown alike.
Programs that are shown alike do the same to every machine. -/
theorem same_programs_agree_iff {levels : Nat} {source source' : String}
    {tokens tokens' : List Token}
    (hscan : Token.scan source = .ok tokens) (hscan' : Token.scan source' = .ok tokens')
    (hsame : samePrograms (Program.ofTokens levels tokens).statements
      (Program.ofTokens levels tokens').statements = true) :
    let ss := (Program.ofTokens levels tokens).statements
    let ts := (Program.ofTokens levels tokens').statements
    (literalTypes ss = literalTypes ts ↔ ss = ts) ∧
      (literalTypes ss = literalTypes ts ↔ ss.map Stmt.display = ts.map Stmt.display) ∧
      (literalTypes ss = literalTypes ts → ∀ m : Machine,
        (m.run ss).output = (m.run ts).output ∧ (m.run ss).machine = (m.run ts).machine ∧
          (m.run ss).failure = (m.run ts).failure) := by
  intro ss ts
  rcases eq_or_apart_of_samePrograms hsame (fun _ => Program.decoded_of_mem hscan)
    (fun _ => Program.decoded_of_mem hscan') with heq | ⟨hdisplay, htypes⟩
  · have heq : ss = ts := heq
    rw [heq]
    exact ⟨⟨fun _ => rfl, fun _ => rfl⟩, ⟨fun _ => rfl, fun _ => rfl⟩, fun _ m => ⟨rfl, rfl, rfl⟩⟩
  · have hne : literalTypes ss ≠ literalTypes ts := htypes.ne
    exact ⟨⟨fun h => absurd h hne, fun h => absurd (congrArg literalTypes h) hne⟩,
      ⟨fun h => absurd h hne, fun h => absurd h hdisplay⟩, fun h => absurd h hne⟩

/-- Numerals may be written in other ways, as long as the operators stand in
their places. -/
theorem same_programs_agree_iff_numerals :
    ∃ tokens tokens', Token.scan "print 1 + 2;" = .ok tokens ∧
      Token.scan "print 01+ 2.0;" = .ok tokens' ∧
      literalTypes (Program.ofTokens 4 tokens).statements = [.number, .number] ∧
      (Program.ofTokens 4 tokens).statements.map Stmt.display =
        (Program.ofTokens 4 tokens').statements.map Stmt.display ∧
      ∀ m : Machine, (m.run (Program.ofTokens 4 tokens).statements).output =
        (m.run (Program.ofTokens 4 tokens').statements).output := by
  obtain ⟨tokens, hscan, htokens⟩ :=
    exists_tokens_of_statementsOf 4 "print 1 + 2;" (by decide +kernel)
  obtain ⟨tokens', hscan', htokens'⟩ :=
    exists_tokens_of_statementsOf 4 "print 01+ 2.0;" (by decide +kernel)
  have hsame : samePrograms (Program.ofTokens 4 tokens).statements
      (Program.ofTokens 4 tokens').statements = true := by
    rw [htokens, htokens']
    decide +kernel
  have htypes : literalTypes (Program.ofTokens 4 tokens).statements = [.number, .number] := by
    rw [htokens]
    decide +kernel
  have htypes' : literalTypes (Program.ofTokens 4 tokens').statements = [.number, .number] := by
    rw [htokens']
    decide +kernel
  obtain ⟨-, hdisplay, hruns⟩ := same_programs_agree_iff hscan hscan' hsame
  have haligned := htypes.trans htypes'.symm
  exact ⟨tokens, tokens', hscan, hscan', htypes, hdisplay.mp haligned,
    fun m => (hruns haligned m).1⟩

/-- A boolean is the same as the number that stands for it, but it is neither
shown nor printed like it. -/
theorem same_programs_differ_at_true :
    ∃ tokens tokens', Token.scan "print true;" = .ok tokens ∧
      Token.scan "print 1;" = .ok tokens' ∧
      samePrograms (Program.ofTokens 4 tokens).statements
        (Program.ofTokens 4 tokens').statements = true ∧
      (Program.ofTokens 4 tokens).statements.map Stmt.display ≠
        (Program.ofTokens 4 tokens').statements.map Stmt.display ∧
      ((Machine.initial 4).run (Program.ofTokens 4 tokens).statements).output ≠
        ((Machine.initial 4).run (Program.ofTokens 4 tokens').statements).output := by
  obtain ⟨tokens, hscan, htokens⟩ :=
    exists_tokens_of_statementsOf 4 "print true;" (by decide +kernel)
  obtain ⟨tokens', hscan', htokens'⟩ :=
    exists_tokens_of_statementsOf 4 "print 1;" (by decide +kernel)
  have hsame : samePrograms (Program.ofTokens 4 tokens).statements
      (Program.ofTokens 4 tokens').statements = true := by
    rw [htokens, htokens']
    decide +kernel
  have htypes : literalTypes (Program.ofTokens 4 tokens).statements ≠
      literalTypes (Program.ofTokens 4 tokens').statements := by
    rw [htokens, htokens']
    decide +kernel
  refine ⟨tokens, tokens', hscan, hscan', hsame, ?_, ?_⟩
  · rcases eq_or_apart_of_samePrograms hsame (fun _ => Program.decoded_of_mem hscan)
      (fun _ => Program.decoded_of_mem hscan') with heq | ⟨hdisplay, -⟩
    · exact absurd (congrArg literalTypes heq) htypes
    · exact hdisplay
  · rw [htokens, htokens']
    decide +kernel

end MiniLox
