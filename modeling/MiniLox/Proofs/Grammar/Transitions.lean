import MiniLox.Proofs.Grammar.Cursor
import MiniLox.Proofs.Grammar.Runs

/-!
Transitions of a position. As long as the list of tokens has a mark for the end of the
text, a step of reading from a position up to the first mark ends at such a position, and
what has been noted on the way is sound: every look-up is inside the list and not behind
the mark. Where it ends, with which result and what is reported is what the rules of the
grammar say of the tokens before the mark.
-/

namespace MiniLox.Grammar

/-! ### Single steps -/

/-- The index of the first mark for the end of the text. -/
def firstEnd (tokens : List Token) : Nat := tokens.findIdx fun t => t.kind == .endOfText

/-- A look-up stands no further than the first end and inside the list, and a declaration takes
a token at least. -/
def Event.Sound (tokens : List Token) : Event → Prop
  | .lookUp current index => current ≤ firstEnd tokens ∧ 0 ≤ index ∧ index < tokens.length
  | .declaration start stop => start < stop ∧ stop ≤ firstEnd tokens

/-- Whatever has been noted is sound. -/
def Cursor.Sound (tokens : List Token) (c : Cursor) : Prop := ∀ e ∈ c.events, e.Sound tokens

namespace Reading

section Transitions

variable {tokens : List Token} {α β : Type} {m : Reading α} {f : α → Reading β} {a : α} {s : Stop}
  {result : Except Stop α} {final : Except Stop β} {i j k : Nat}
  {new more : List SyntaxError} {t : Token} {x : Expectation}

/-- From every sound cursor at `i` reading ends with the result at `k`, having reported the new
mistakes, and the cursor is sound again. -/
def Goes (tokens : List Token) (m : Reading α) (i : Nat) (result : Except Stop α) (k : Nat)
    (new : List SyntaxError) : Prop :=
  ∀ c : Cursor, c.Sound tokens → c.current = i → ∃ c' : Cursor,
    m.run.run c = (result, c') ∧ c'.Sound tokens ∧ c'.current = k ∧
      c'.reported = c.reported ++ new

theorem Goes.note {start : Nat} (hstart : start < k) (hk : k ≤ firstEnd tokens) :
    Goes tokens (modify fun c => c.note (.declaration start c.current)) k (.ok ()) k [] := by
  intro c hsound hc
  refine ⟨_, rfl, ?_, hc, (List.append_nil _).symm⟩
  exact List.forall_mem_cons.mpr ⟨⟨hc ▸ hstart, hc ▸ hk⟩, hsound⟩

theorem run_bind_ok {c c' : Cursor} (h : m.run.run c = (.ok a, c')) :
    (m >>= f).run.run c = (f a).run.run c' := by
  rw [ExceptT.run_bind, StateT.run_bind, h]
  rfl

theorem run_bind_error {c c' : Cursor} (h : m.run.run c = (.error s, c')) :
    (m >>= f).run.run c = (.error s, c') := by
  rw [ExceptT.run_bind, StateT.run_bind, h]
  rfl

theorem run_tryCatch (m : Reading α) (handle : Stop → Reading α) (c : Cursor) :
    (tryCatchThe Stop m handle).run.run c =
      match m.run.run c with
      | (.ok a, c') => (.ok a, c')
      | (.error s, c') => (handle s).run.run c' := by
  have hcatch : tryCatchThe Stop m handle = ExceptT.tryCatch m handle := rfl
  have hrun : StateT.run (m := Id) m c = m.run.run c := rfl
  rw [hcatch, ExceptT.tryCatch, ExceptT.run_mk, StateT.run_bind, hrun]
  obtain ⟨result, c'⟩ := m.run.run c
  cases result <;> rfl

theorem Goes.pure (a : α) : Goes tokens (pure a) i (.ok a) i [] :=
  fun c hsound hc => ⟨c, rfl, hsound, hc, (List.append_nil _).symm⟩

theorem Goes.throw (s : Stop) : Goes tokens (throw s : Reading α) i (.error s) i [] :=
  fun c hsound hc => ⟨c, rfl, hsound, hc, (List.append_nil _).symm⟩

theorem Goes.bind (hm : Goes tokens m i (.ok a) j new) (hf : Goes tokens (f a) j final k more) :
    Goes tokens (m >>= f) i final k (new ++ more) := by
  intro c hsound hc
  obtain ⟨c', hrun, hsound', hc', hreported⟩ := hm c hsound hc
  obtain ⟨c'', hrun', hsound'', hc'', hreported'⟩ := hf c' hsound' hc'
  exact ⟨c'', (run_bind_ok hrun).trans hrun', hsound'', hc'',
    by rw [hreported', hreported, List.append_assoc]⟩

theorem Goes.bind_error (hm : Goes tokens m i (.error s) k new) :
    Goes tokens (m >>= f) i (.error s) k new := by
  intro c hsound hc
  obtain ⟨c', hrun, hrest⟩ := hm c hsound hc
  exact ⟨c', run_bind_error hrun, hrest⟩

/-- The position is known. -/
theorem Goes.get_bind {f : Cursor → Reading β}
    (h : ∀ c : Cursor, c.current = i → Goes tokens (f c) i final k new) :
    Goes tokens (get >>= f) i final k new := by
  intro c hsound hc
  obtain ⟨c', hrun, hrest⟩ := h c hc c hsound hc
  exact ⟨c', (run_bind_ok rfl).trans hrun, hrest⟩

theorem Goes.tryCatch_ok {handle : Stop → Reading α} (h : Goes tokens m i (.ok a) k new) :
    Goes tokens (tryCatchThe Stop m handle) i (.ok a) k new := by
  intro c hsound hc
  obtain ⟨c', hrun, hrest⟩ := h c hsound hc
  refine ⟨c', ?_, hrest⟩
  rw [run_tryCatch, hrun]

theorem Goes.tryCatch_error {handle : Stop → Reading α} (h : Goes tokens m i (.error s) j new)
    (hhandle : Goes tokens (handle s) j result k more) :
    Goes tokens (tryCatchThe Stop m handle) i result k (new ++ more) := by
  intro c hsound hc
  obtain ⟨c', hrun, hsound', hc', hreported⟩ := h c hsound hc
  obtain ⟨c'', hrun', hsound'', hc'', hreported'⟩ := hhandle c' hsound' hc'
  refine ⟨c'', ?_, hsound'', hc'', by rw [hreported', hreported, List.append_assoc]⟩
  rw [run_tryCatch, hrun]
  exact hrun'

theorem Goes.lookUp {index : Int} (hi : i ≤ firstEnd tokens) (hindex : 0 ≤ index)
    (ht : tokens[index.toNat]? = some t) : Goes tokens (lookUp tokens index) i (.ok t) i [] := by
  intro c hsound hc
  have hat : tokenAt? tokens index = some t := by rw [tokenAt?, if_pos hindex, ht]
  obtain ⟨hlt, -⟩ := List.getElem?_eq_some_iff.mp ht
  refine ⟨c.note (.lookUp c.current index), ?_, ?_, hc, (List.append_nil _).symm⟩
  · unfold Reading.lookUp
    rw [hat]
    rfl
  · exact List.forall_mem_cons.mpr ⟨⟨hc ▸ hi, hindex, by omega⟩, hsound⟩

theorem Goes.peek (hi : i ≤ firstEnd tokens) (ht : tokens[i]? = some t) :
    Goes tokens (peek tokens) i (.ok t) i [] := by
  refine Goes.get_bind fun c hc => ?_
  rw [hc]
  exact Goes.lookUp hi (Int.natCast_nonneg i) ht

theorem Goes.previous (hi : i + 1 ≤ firstEnd tokens) (ht : tokens[i]? = some t) :
    Goes tokens (previous tokens) (i + 1) (.ok t) (i + 1) [] := by
  refine Goes.get_bind fun c hc => ?_
  have hindex : ((i + 1 : Nat) : Int) - 1 = i := by omega
  rw [hc, hindex]
  exact Goes.lookUp hi (Int.natCast_nonneg i) ht

theorem Goes.error (t : Token) (x : Expectation) :
    Goes tokens (error t x : Reading α) i (.error .mismatch) i [{ token := t, expected := x }] :=
  fun _ hsound hc => ⟨_, rfl, hsound, hc, rfl⟩

theorem Goes.step : Goes tokens (modify fun c => { c with current := c.current + 1 }) i (.ok ())
    (i + 1) [] :=
  fun _ hsound hc => ⟨_, rfl, hsound, congrArg (· + 1) hc, (List.append_nil _).symm⟩

end Transitions

end Reading

/-! ### The first end -/

/-- The tokens begin with those of `front`, none of which ends the text, and with `last`, which
does. -/
structure Ended (tokens front : List Token) (last : Token) : Prop where
  unended : Unended front
  kind_last : last.kind = .endOfText
  tokens_eq : ∃ behind, tokens = front ++ last :: behind

namespace Ended

variable {tokens front : List Token} {last t : Token} {i : Nat}

theorem firstEnd_eq (h : Ended tokens front last) : firstEnd tokens = front.length := by
  obtain ⟨behind, rfl⟩ := h.tokens_eq
  have hfront : ∀ t ∈ front, (t.kind == .endOfText) = false :=
    fun t ht => beq_eq_false_iff_ne.mpr (h.unended t ht)
  rw [firstEnd, List.findIdx_append, List.findIdx_cons, h.kind_last]
  have hnone : front.findIdx (fun t => t.kind == .endOfText) = front.length :=
    List.findIdx_eq_length.mpr hfront
  rw [hnone]
  simp

theorem length_lt (h : Ended tokens front last) : front.length < tokens.length := by
  obtain ⟨behind, rfl⟩ := h.tokens_eq
  rw [List.length_append, List.length_cons]
  omega

theorem getElem?_front (h : Ended tokens front last) (ht : front[i]? = some t) :
    tokens[i]? = some t := by
  obtain ⟨behind, rfl⟩ := h.tokens_eq
  obtain ⟨hlt, -⟩ := List.getElem?_eq_some_iff.mp ht
  rw [List.getElem?_append_left hlt, ht]

theorem getElem?_last (h : Ended tokens front last) : tokens[front.length]? = some last := by
  obtain ⟨behind, rfl⟩ := h.tokens_eq
  rw [List.getElem?_append_right (Nat.le_refl _), Nat.sub_self]
  rfl

theorem drop_eq_cons (ht : front[i]? = some t) : front.drop i = t :: front.drop (i + 1) := by
  obtain ⟨hlt, rfl⟩ := List.getElem?_eq_some_iff.mp ht
  exact List.drop_eq_getElem_cons hlt

theorem of_drop_eq_cons {ts : List Token} (hts : front.drop i = t :: ts) :
    front[i]? = some t ∧ front.drop (i + 1) = ts ∧ i + 1 ≤ front.length := by
  have ht : front[i]? = some t := by
    rw [← List.head?_drop, hts, List.head?_cons]
  obtain ⟨hlt, -⟩ := List.getElem?_eq_some_iff.mp ht
  rw [drop_eq_cons ht] at hts
  exact ⟨ht, List.tail_eq_of_cons_eq hts, hlt⟩

/-- A position up to the first end stands before a token or at the end. -/
theorem position_cases (hi : i ≤ front.length) :
    i = front.length ∨ ∃ t, front[i]? = some t ∧ i + 1 ≤ front.length := by
  rcases Nat.lt_or_eq_of_le hi with hlt | heq
  · exact .inr ⟨front[i], List.getElem?_eq_getElem hlt, hlt⟩
  · exact .inl heq

end Ended

namespace Reading

/-- Whether the next token has one of the kinds. -/
def nextIs (front : List Token) (i : Nat) (ks : List Kind) : Bool :=
  front[i]?.any fun t => ks.contains t.kind

section Helpers

variable {tokens front : List Token} {last t : Token} {i : Nat} {k : Kind} {ks : List Kind}
  {α : Type}

theorem nextIs_of_some (ht : front[i]? = some t) : nextIs front i ks = ks.contains t.kind := by
  rw [nextIs, ht, Option.any_some]

theorem nextIs_length : nextIs front front.length ks = false := by
  rw [nextIs, List.getElem?_eq_none (Nat.le_refl _), Option.any_none]

theorem exists_of_nextIs (hnext : nextIs front i ks = true) : ∃ t, front[i]? = some t := by
  cases ht : front[i]? with
  | none => rw [nextIs, ht, Option.any_none] at hnext; contradiction
  | some t => exact ⟨t, rfl⟩

variable (h : Ended tokens front last)

include h

theorem goes_peek_front (ht : front[i]? = some t) :
    Goes tokens (peek tokens) i (.ok t) i [] := by
  obtain ⟨hlt, -⟩ := List.getElem?_eq_some_iff.mp ht
  exact Goes.peek (h.firstEnd_eq ▸ Nat.le_of_lt hlt) (h.getElem?_front ht)

theorem goes_peek_last : Goes tokens (peek tokens) front.length (.ok last) front.length [] :=
  Goes.peek (Nat.le_of_eq h.firstEnd_eq.symm) h.getElem?_last

theorem goes_isAtEnd_front (ht : front[i]? = some t) :
    Goes tokens (isAtEnd tokens) i (.ok false) i [] := by
  have hkind : (t.kind == .endOfText) = false :=
    beq_eq_false_iff_ne.mpr (h.unended t (List.mem_of_getElem? ht))
  refine (goes_peek_front h ht).bind ?_
  rw [hkind]
  exact Goes.pure false

theorem goes_isAtEnd_last :
    Goes tokens (isAtEnd tokens) front.length (.ok true) front.length [] := by
  have hkind : (last.kind == .endOfText) = true := beq_iff_eq.mpr h.kind_last
  refine (goes_peek_last h).bind ?_
  rw [hkind]
  exact Goes.pure true

theorem goes_check_front (ht : front[i]? = some t) (k : Kind) :
    Goes tokens (check tokens k) i (.ok (t.kind == k)) i [] :=
  (goes_isAtEnd_front h ht).bind ((goes_peek_front h ht).bind (Goes.pure _))

theorem goes_check_last (k : Kind) :
    Goes tokens (check tokens k) front.length (.ok false) front.length [] :=
  (goes_isAtEnd_last h).bind (Goes.pure false)

theorem goes_advance_front (ht : front[i]? = some t) :
    Goes tokens (advance tokens) i (.ok t) (i + 1) [] := by
  obtain ⟨hlt, -⟩ := List.getElem?_eq_some_iff.mp ht
  exact (goes_isAtEnd_front h ht).bind (Goes.step.bind
    (Goes.previous (h.firstEnd_eq ▸ hlt) (h.getElem?_front ht)))

/-- At the end the position stays. There is a token before it, unless nothing but the end was
there from the beginning. -/
theorem goes_advance_last (ht : front[i]? = some t) (hi : i + 1 = front.length) :
    Goes tokens (advance tokens) front.length (.ok t) front.length [] := by
  refine (goes_isAtEnd_last h).bind ?_
  rw [← hi]
  exact Goes.previous (h.firstEnd_eq ▸ Nat.le_of_eq hi) (h.getElem?_front ht)

theorem goes_check (hi : i ≤ front.length) (k : Kind) :
    Goes tokens (check tokens k) i (.ok (nextIs front i [k])) i [] := by
  rcases Ended.position_cases hi with rfl | ⟨t, ht, -⟩
  · rw [nextIs_length]
    exact goes_check_last h k
  · rw [nextIs_of_some ht, List.contains_cons, List.contains_nil, Bool.or_false]
    exact goes_check_front h ht k

theorem goes_matchAny (hi : i ≤ front.length) (ks : List Kind) :
    Goes tokens (matchAny tokens ks) i (.ok (nextIs front i ks))
      (if nextIs front i ks then i + 1 else i) [] := by
  induction ks with
  | nil =>
      have hnone : nextIs front i [] = false := by
        rcases Ended.position_cases hi with rfl | ⟨t, ht, -⟩
        · exact nextIs_length
        · exact nextIs_of_some ht
      rw [hnone]
      exact Goes.pure false
  | cons k ks ih =>
      have hcons : nextIs front i (k :: ks) = (nextIs front i [k] || nextIs front i ks) := by
        cases ht : front[i]? <;> simp [nextIs, ht]
      refine (goes_check h hi k).bind ?_
      rw [hcons]
      cases hk : nextIs front i [k] with
      | false => exact ih
      | true =>
          obtain ⟨t, ht⟩ := exists_of_nextIs hk
          exact (goes_advance_front h ht).bind (Goes.pure true)

theorem goes_fail (hi : i ≤ front.length) (x : Expectation) :
    Goes tokens (fail tokens x : Reading α) i (.error .mismatch) i
      [{ token := (front.drop i).headD last, expected := x }] := by
  rcases Ended.position_cases hi with rfl | ⟨t, ht, -⟩
  · rw [List.drop_length, List.headD_nil]
    exact (goes_peek_last h).bind (Goes.error last x)
  · rw [Ended.drop_eq_cons ht, List.headD_cons]
    exact (goes_peek_front h ht).bind (Goes.error t x)

end Helpers

/-! ### Rules -/

variable {α β : Type}

/-- From `i` reading does what is said of the tokens before the end: it ends where they go on, and
a mismatch is reported at the offending token. -/
inductive Leads (tokens front : List Token) (last : Token) (m : Reading α) (i : Nat) :
    Result α → Prop where
  | ok {a : α} {k : Nat} (hk : k ≤ front.length) (hm : Goes tokens m i (.ok a) k []) :
      Leads tokens front last m i (.ok (a, front.drop k))
  | mismatch {k : Nat} {x : Expectation} (hk : k ≤ front.length)
      (hm : Goes tokens m i (.error .mismatch) k
        [{ token := (front.drop k).headD last, expected := x }]) :
      Leads tokens front last m i (.error (.mismatch (front.drop k) x))
  | tooDeep {k : Nat} (hk : k ≤ front.length) (hm : Goes tokens m i (.error .tooDeep) k []) :
      Leads tokens front last m i (.error .tooDeep)

/-- Reading does at every position what the rule does to the tokens from there to the end. -/
def Follows (tokens front : List Token) (last : Token) (m : Reading α) (r : Rule α) : Prop :=
  ∀ i ≤ front.length, Leads tokens front last m i (r.read (front.drop i))

section Rules

variable {tokens front : List Token} {last t : Token} {m yes no : Reading α} {f : α → Reading β}
  {a : α} {i k : Nat} {ks : List Kind} {result : Result α} {final : Result β} {e : Failure}
  {r : Rule α} {next : α → Rule β}

theorem Leads.after (hm : Goes tokens m i (.ok a) k [])
    (hf : Leads tokens front last (f a) k final) :
    Leads tokens front last (m >>= f) i final := by
  cases hf with
  | ok hk hf => exact .ok hk (hm.bind hf)
  | mismatch hk hf => exact .mismatch hk (hm.bind hf)
  | tooDeep hk hf => exact .tooDeep hk (hm.bind hf)

theorem Leads.bind_error (hm : Leads tokens front last m i (.error e)) :
    Leads tokens front last (m >>= f) i (.error e) := by
  cases hm with
  | mismatch hk hm => exact .mismatch hk hm.bind_error
  | tooDeep hk hm => exact .tooDeep hk hm.bind_error

theorem Follows.andThen (hm : Follows tokens front last m r)
    (hf : ∀ a, Follows tokens front last (f a) (next a)) :
    Follows tokens front last (m >>= f) (r.andThen next) := by
  intro i hi
  have hlead := hm i hi
  unfold Rule.andThen
  dsimp only
  generalize r.read (front.drop i) = result at hlead
  cases hlead with
  | ok hk hm => exact .after hm (hf _ _ hk)
  | mismatch hk hm => exact .mismatch hk hm.bind_error
  | tooDeep hk hm => exact .tooDeep hk hm.bind_error

theorem Follows.map (hm : Follows tokens front last m r) (g : α → β) :
    Follows tokens front last (m >>= fun a => pure (g a)) (r.map g) := by
  intro i hi
  have hlead := hm i hi
  unfold Rule.map
  dsimp only
  generalize r.read (front.drop i) = result at hlead
  cases hlead with
  | ok hk hm => exact .ok hk (hm.bind (Goes.pure _))
  | mismatch hk hm => exact .mismatch hk hm.bind_error
  | tooDeep hk hm => exact .tooDeep hk hm.bind_error

theorem Follows.tooDeep : Follows tokens front last (throw .tooDeep : Reading α) Rule.tooDeep :=
  fun _ hi => .tooDeep hi (Goes.throw .tooDeep)

variable (h : Ended tokens front last)

include h

theorem Leads.fail (hi : i ≤ front.length) (x : Expectation) :
    Leads tokens front last (fail tokens x : Reading α) i (.error (.mismatch (front.drop i) x)) :=
  .mismatch hi (goes_fail h hi x)

/-- The next token is taken if it has one of the kinds. -/
theorem Leads.matchAny (hi : i ≤ front.length)
    (hyes : ∀ t, front[i]? = some t → ks.contains t.kind = true →
      Leads tokens front last yes (i + 1) result)
    (hno : nextIs front i ks = false → Leads tokens front last no i result) :
    Leads tokens front last (do if ← matchAny tokens ks then yes else no) i result := by
  have hmatch := goes_matchAny h hi ks
  cases hnext : nextIs front i ks with
  | false =>
      rw [hnext] at hmatch
      exact .after hmatch (hno hnext)
  | true =>
      rw [hnext] at hmatch
      obtain ⟨t, ht⟩ := exists_of_nextIs hnext
      exact .after hmatch (hyes t ht ((nextIs_of_some ht).symm.trans hnext))

/-- Behind a token that has been taken it is looked up again. -/
theorem Leads.previous {f : Token → Reading β} (ht : front[i]? = some t)
    (hf : Leads tokens front last (f t) (i + 1) final) :
    Leads tokens front last (Reading.previous tokens >>= f) (i + 1) final := by
  obtain ⟨hlt, -⟩ := List.getElem?_eq_some_iff.mp ht
  exact .after (Goes.previous (h.firstEnd_eq ▸ hlt) (h.getElem?_front ht)) hf

theorem follows_consume (k : Kind) (x : Expectation) :
    Follows tokens front last (consume tokens k x) (Rule.kind k x) := by
  intro i hi
  rcases Ended.position_cases hi with rfl | ⟨t, ht, hi'⟩
  · have hread : (Rule.kind k x).read (front.drop front.length) =
        .error (.mismatch (front.drop front.length) x) := by
      rw [List.drop_length]
      rfl
    rw [hread]
    exact .after (goes_check_last h k) (.fail h hi x)
  · have hread : (Rule.kind k x).read (front.drop i) = if t.kind == k then
        .ok (t, front.drop (i + 1)) else .error (.mismatch (front.drop i) x) := by
      rw [Ended.drop_eq_cons ht]
      rfl
    rw [hread]
    refine .after (goes_check_front h ht k) ?_
    split
    · exact .ok hi' (goes_advance_front h ht)
    · exact .fail h hi x

end Rules

/-! ### Expressions -/

section Expressions

variable {tokens front : List Token} {last t : Token} {operand : Reading Expr} {rule : Rule Expr}
  {ks : List Kind} {operators : Kind → Bool} {i rounds : Nat}

theorem grouped_read_cons (ht : t.kind = .leftParen) (ts : List Token) :
    (grouped rule).read (t :: ts) =
      (rule.andThen fun inner => (Rule.kind .rightParen .closingParen).map fun _ =>
        Expr.group inner).read ts := by
  simp [grouped, Rule.kind, Rule.token, Rule.andThen, ht]

theorem signed_read_cons (ht : t.kind.isUnary = true) (ts : List Token) :
    (signed rule).read (t :: ts) = (rule.map fun right => Expr.unary t right).read ts := by
  simp [signed, Rule.token, Rule.andThen, ht]

variable (h : Ended tokens front last)

include h

/-- Every round of the loop takes an operator, so there are enough of them. -/
theorem leads_binaryRest (hks : ∀ k, ks.contains k = operators k)
    (hoperand : Follows tokens front last operand rule) (left : Expr) (hi : i ≤ front.length)
    (hrounds : front.length ≤ rounds + i) :
    Leads tokens front last (binaryRest tokens ks operand (rounds + 1) left) i
      (Rule.chainRest operators rule left (front.drop i)) := by
  generalize hts : front.drop i = ts
  fun_induction Rule.chainRest operators rule left ts generalizing i rounds with
  | case1 left =>
      obtain rfl : i = front.length := Nat.le_antisymm hi (List.drop_eq_nil_iff.mp hts)
      rw [binaryRest, ← hts]
      refine .matchAny h hi (fun t ht => ?_) fun _ => .ok hi (Goes.pure left)
      rw [List.getElem?_eq_none (Nat.le_refl _)] at ht
      contradiction
  | case2 left t ts hoperator right rest hread ih =>
      obtain ⟨ht, hts, hi'⟩ := Ended.of_drop_eq_cons hts
      have hlength := rule.rest_lt hread
      have hright := hoperand (i + 1) hi'
      rw [hts, hread] at hright
      rw [binaryRest]
      refine .matchAny h hi (fun u hu _ => ?_) fun hnext => ?_
      · obtain rfl := Option.some.inj (ht.symm.trans hu)
        refine .previous h ht ?_
        cases hright with
        | @ok _ k hk hright =>
            rw [← hts, List.length_drop, List.length_drop] at hlength
            obtain ⟨more, rfl⟩ : ∃ more, rounds = more + 1 := ⟨rounds - 1, by omega⟩
            exact .after hright (ih hk (by omega) rfl)
      · rw [nextIs_of_some ht, hks, hoperator] at hnext
        contradiction
  | case3 left t ts hoperator failure hread =>
      obtain ⟨ht, hts, hi'⟩ := Ended.of_drop_eq_cons hts
      have hright := hoperand (i + 1) hi'
      rw [hts, hread] at hright
      rw [binaryRest]
      refine .matchAny h hi (fun u hu _ => ?_) fun hnext => ?_
      · obtain rfl := Option.some.inj (ht.symm.trans hu)
        exact .previous h ht hright.bind_error
      · rw [nextIs_of_some ht, hks, hoperator] at hnext
        contradiction
  | case4 left t ts hoperator =>
      obtain ⟨ht, -, -⟩ := Ended.of_drop_eq_cons hts
      rw [binaryRest, ← hts]
      refine .matchAny h hi (fun u hu hk => ?_) fun _ => .ok hi (Goes.pure left)
      obtain rfl := Option.some.inj (ht.symm.trans hu)
      exact absurd ((hks t.kind).symm.trans hk) hoperator

theorem Follows.binary (hrounds : front.length < rounds) (hks : ∀ k, ks.contains k = operators k)
    (hoperand : Follows tokens front last operand rule) :
    Follows tokens front last (binary tokens rounds ks operand) (Rule.chain operators rule) := by
  intro i hi
  have hlead := hoperand i hi
  unfold Rule.chain
  dsimp only
  generalize rule.read (front.drop i) = result at hlead
  cases hlead with
  | ok hk hm =>
      obtain ⟨more, rfl⟩ : ∃ more, rounds = more + 1 := ⟨rounds - 1, by omega⟩
      exact .after hm (leads_binaryRest h hks hoperand _ hk (by omega))
  | mismatch hk hm => exact .mismatch hk hm.bind_error
  | tooDeep hk hm => exact .tooDeep hk hm.bind_error

theorem Follows.binaryOver (hrounds : front.length < rounds)
    (hunary : Follows tokens front last operand rule) :
    Follows tokens front last (binaryOver tokens rounds operand) (Grammar.binaryOver rule) := by
  refine .binary h hrounds ?_ (.binary h hrounds ?_ (.binary h hrounds ?_
    (.binary h hrounds ?_ hunary))) <;> exact fun k => by cases k <;> rfl

theorem Follows.primaryOver (hexpression : Follows tokens front last operand rule) :
    Follows tokens front last (primaryOver tokens operand) (Grammar.primaryOver rule) := by
  intro i hi
  have hread (t : Token) (ht : front[i]? = some t) :
      (Grammar.primaryOver rule).read (front.drop i) =
        if t.kind.isLiteral then .ok (.literal t.denoted, front.drop (i + 1))
        else if t.kind = .identifier then .ok (.name t, front.drop (i + 1))
        else if t.kind = .leftParen then (grouped rule).read (front.drop i)
        else .error (.mismatch (front.drop i) .expression) := by
    rw [Ended.drop_eq_cons ht]
    exact primaryOver_read_cons t _
  have hliteral (t : Token) (ht : front[i]? = some t) {k : Kind} {value : Value}
      (hk : t.kind = k) (hkind : k.isLiteral = true) (hvalue : t.denoted = value) :
      Leads tokens front last (Pure.pure (.literal value)) (i + 1)
        ((Grammar.primaryOver rule).read (front.drop i)) := by
    obtain ⟨hlt, -⟩ := List.getElem?_eq_some_iff.mp ht
    rw [hread t ht, hk, if_pos hkind, hvalue]
    exact .ok hlt (Goes.pure _)
  refine .matchAny h hi (fun t ht hk => ?_) fun hfalse => ?_
  · have hk : t.kind = .falseWord := by simpa using hk
    exact hliteral t ht hk rfl (by rw [Token.denoted, hk])
  refine .matchAny h hi (fun t ht hk => ?_) fun htrue => ?_
  · have hk : t.kind = .trueWord := by simpa using hk
    exact hliteral t ht hk rfl (by rw [Token.denoted, hk])
  refine .matchAny h hi (fun t ht hk => ?_) fun hnil => ?_
  · have hk : t.kind = .nilWord := by simpa using hk
    exact hliteral t ht hk rfl (by rw [Token.denoted, hk])
  refine .matchAny h hi (fun t ht hk => .previous h ht ?_) fun hvalue => ?_
  · have hk : t.kind = .number ∨ t.kind = .string := by simpa using hk
    rcases hk with hk | hk
    · exact hliteral t ht hk rfl (by rw [Token.denoted, hk])
    · exact hliteral t ht hk rfl (by rw [Token.denoted, hk])
  refine .matchAny h hi (fun t ht hk => .previous h ht ?_) fun hname => ?_
  · have hk : t.kind = .identifier := by simpa using hk
    obtain ⟨hlt, -⟩ := List.getElem?_eq_some_iff.mp ht
    rw [hread t ht, hk, if_neg (by decide), if_pos rfl]
    exact .ok hlt (Goes.pure _)
  refine .matchAny h hi (fun t ht hk => ?_) fun hparen => ?_
  · have hk : t.kind = .leftParen := by simpa using hk
    obtain ⟨hlt, -⟩ := List.getElem?_eq_some_iff.mp ht
    have hinner := hexpression.andThen fun inner =>
      (follows_consume h .rightParen .closingParen).map fun _ => Expr.group inner
    rw [hread t ht, hk, if_neg (by decide), if_neg (by decide), if_pos rfl,
      Ended.drop_eq_cons ht, grouped_read_cons hk]
    exact hinner (i + 1) hlt
  · have hnone : (Grammar.primaryOver rule).read (front.drop i) =
        .error (.mismatch (front.drop i) .expression) := by
      rcases Ended.position_cases hi with rfl | ⟨t, ht, -⟩
      · rw [List.drop_length]
        rfl
      · rw [nextIs_of_some ht] at hfalse htrue hnil hvalue hname hparen
        rw [hread t ht]
        simp_all [Kind.isLiteral]
    rw [hnone]
    exact .fail h hi .expression

theorem follows_unary (hrounds : front.length < rounds) (levels : Nat) :
    Follows tokens front last (unary tokens rounds levels) (Grammar.unary levels) := by
  induction levels with
  | zero => exact .tooDeep
  | succ levels ih =>
      intro i hi
      refine .matchAny h hi (fun t ht hk => .previous h ht ?_) fun hnext => ?_
      · have hk : t.kind.isUnary = true := by simpa [Kind.isUnary] using hk
        obtain ⟨hlt, -⟩ := List.getElem?_eq_some_iff.mp ht
        rw [Ended.drop_eq_cons ht, unary_read_cons, if_pos hk, signed_read_cons hk]
        exact ih.map _ (i + 1) hlt
      · have hread : (Grammar.unary (levels + 1)).read (front.drop i) =
            (Grammar.primaryOver (Grammar.expression levels)).read (front.drop i) := by
          rcases Ended.position_cases hi with rfl | ⟨t, ht, -⟩
          · rw [List.drop_length]
            rfl
          · rw [nextIs_of_some ht] at hnext
            have hk : ¬t.kind.isUnary = true := by simpa [Kind.isUnary] using hnext
            rw [Ended.drop_eq_cons ht, unary_read_cons, if_neg hk]
        rw [hread]
        exact Follows.primaryOver h (ih.binaryOver h hrounds) i hi

theorem follows_expression (hrounds : front.length < rounds) (levels : Nat) :
    Follows tokens front last (expression tokens rounds levels) (Grammar.expression levels) :=
  (follows_unary h hrounds levels).binaryOver h hrounds

end Expressions

end Reading

end MiniLox.Grammar
