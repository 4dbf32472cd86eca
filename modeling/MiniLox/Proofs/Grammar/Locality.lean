import MiniLox.Grammar.Program

/-!
How far a rule looks. What a rule has made of the tokens before some place
depends on the token at that place, but on none behind it: the tokens behind
can be exchanged for others, and the rule still reads the same phrase up to
there, or fails there for the same reason. That holds of every rule made by
the combinators, so it is shown for each combinator once.

A rule is closed if it does not even depend on the token after its phrase.
Rules that end with a token of their own are closed.
-/

namespace MiniLox.Grammar

namespace Rule

variable {α β : Type}

/-! ### What the combinators read -/

section Reading

variable {accepts : Kind → Bool} {x : Expectation} {ts rest : List Token} {r : Rule α}
  {next : α → Rule β} {f : α → β} {b : β} {e : Failure}

theorem token_eq_ok {t : Token} :
    (token accepts x).read ts = .ok (t, rest) ↔ ts = t :: rest ∧ accepts t.kind = true := by
  cases ts with
  | nil => simp [token]
  | cons u us =>
      by_cases hu : accepts u.kind = true
      · simp only [token, hu, if_true, Except.ok.injEq, Prod.mk.injEq, List.cons.injEq]
        constructor
        · rintro ⟨rfl, rfl⟩
          exact ⟨⟨rfl, rfl⟩, hu⟩
        · rintro ⟨⟨rfl, rfl⟩, -⟩
          exact ⟨rfl, rfl⟩
      · simp only [token, hu, if_false, List.cons.injEq, reduceCtorEq, false_iff]
        rintro ⟨⟨rfl, rfl⟩, ht⟩
        exact hu ht

theorem token_eq_error :
    (token accepts x).read ts = .error e ↔
      .mismatch ts x = e ∧ ∀ t ∈ ts.head?, accepts t.kind = false := by
  cases ts with
  | nil => simp [token]
  | cons u us =>
      by_cases hu : accepts u.kind = true
      · simp [token, hu]
      · simp [token, hu]

theorem map_eq_ok :
    (r.map f).read ts = .ok (b, rest) ↔ ∃ a, r.read ts = .ok (a, rest) ∧ f a = b := by
  simp only [map]
  cases r.read ts with
  | ok p =>
      obtain ⟨a, mid⟩ := p
      simp only [Except.ok.injEq, Prod.mk.injEq]
      constructor
      · rintro ⟨rfl, rfl⟩
        exact ⟨a, ⟨rfl, rfl⟩, rfl⟩
      · rintro ⟨a', ⟨rfl, rfl⟩, rfl⟩
        exact ⟨rfl, rfl⟩
  | error e => simp

theorem map_eq_error : (r.map f).read ts = .error e ↔ r.read ts = .error e := by
  simp only [map]
  cases r.read ts <;> simp

theorem andThen_eq_ok :
    (r.andThen next).read ts = .ok (b, rest) ↔
      ∃ a mid, r.read ts = .ok (a, mid) ∧ (next a).read mid = .ok (b, rest) := by
  simp only [andThen]
  cases r.read ts with
  | ok p =>
      obtain ⟨a, mid⟩ := p
      simp [and_assoc]
  | error e => simp

theorem andThen_eq_error :
    (r.andThen next).read ts = .error e ↔
      r.read ts = .error e ∨ ∃ a mid, r.read ts = .ok (a, mid) ∧ (next a).read mid = .error e := by
  simp only [andThen]
  cases r.read ts with
  | ok p =>
      obtain ⟨a, mid⟩ := p
      simp [and_assoc]
  | error e => simp

theorem byHead_read (choose : Option Kind → Rule α) (ts : List Token) :
    (byHead choose).read ts = (choose (ts.head?.map Token.kind)).read ts := rfl

theorem chain_eq_ok {operators : Kind → Bool} {operand : Rule Expr} {tree : Expr} :
    (chain operators operand).read ts = .ok (tree, rest) ↔
      ∃ left mid, operand.read ts = .ok (left, mid) ∧
        chainRest operators operand left mid = .ok (tree, rest) := by
  simp only [chain]
  cases operand.read ts with
  | ok p =>
      obtain ⟨left, mid⟩ := p
      simp [and_assoc]
  | error e => simp

theorem chain_eq_error {operators : Kind → Bool} {operand : Rule Expr} :
    (chain operators operand).read ts = .error e ↔
      operand.read ts = .error e ∨ ∃ left mid, operand.read ts = .ok (left, mid) ∧
        chainRest operators operand left mid = .error e := by
  simp only [chain]
  cases operand.read ts with
  | ok p =>
      obtain ⟨left, mid⟩ := p
      simp [and_assoc]
  | error e => simp

end Reading

/-! ### Locality -/

/-- What a rule leaves is the end of what it was given, and it does not look
further than one token into what it leaves: the rest can be exchanged for
tokens that begin with the same one. -/
structure Local (r : Rule α) : Prop where
  suffix_of_ok : ∀ {ts rest : List Token} {a : α}, r.read ts = .ok (a, rest) → rest <:+ ts
  suffix_of_mismatch : ∀ {ts rest : List Token} {x : Expectation},
    r.read ts = .error (.mismatch rest x) → rest <:+ ts
  ok : ∀ {u v v' : List Token} {a : α}, r.read (u ++ v) = .ok (a, v) → v'.head? = v.head? →
    r.read (u ++ v') = .ok (a, v')
  mismatch : ∀ {u v v' : List Token} {x : Expectation},
    r.read (u ++ v) = .error (.mismatch v x) → v'.head? = v.head? →
      r.read (u ++ v') = .error (.mismatch v' x)

/-- The phrase of a rule is complete whatever comes after it. -/
structure Closed (r : Rule α) : Prop where
  exchange : ∀ {u v : List Token} {a : α} (v' : List Token), r.read (u ++ v) = .ok (a, v) →
    r.read (u ++ v') = .ok (a, v')

/-- What is nested too deeply stays so whatever comes after it. -/
structure StaysTooDeep (r : Rule α) : Prop where
  append : ∀ {ts : List Token} (w : List Token), r.read ts = .error .tooDeep →
    r.read (ts ++ w) = .error .tooDeep

section Exchange

variable {u v v' w ts rest : List Token}

/-- A list between another and one of its ends. -/
theorem exists_append_of_suffix (hrest : rest <:+ u ++ v) (hv : v <:+ rest) :
    ∃ p m, u = p ++ m ∧ rest = m ++ v := by
  obtain ⟨m, rfl⟩ := hv
  obtain ⟨p, hp⟩ := hrest
  rw [← List.append_assoc] at hp
  exact ⟨p, m, (List.append_cancel_right hp).symm, rfl⟩

theorem head?_append_congr (h : v'.head? = v.head?) : (w ++ v').head? = (w ++ v).head? := by
  rw [List.head?_append, List.head?_append, h]

/-- Tokens that come after others do not change which one is first. -/
theorem head?_append_of_ne_nil (hrest : rest ≠ []) (w : List Token) :
    (rest ++ w).head? = rest.head? := by
  cases rest with
  | nil => contradiction
  | cons t ts => rfl

theorem Local.ok_append {r : Rule α} {a : α} (hr : Local r) (h : r.read ts = .ok (a, rest))
    (hrest : rest ≠ []) (w : List Token) : r.read (ts ++ w) = .ok (a, rest ++ w) := by
  obtain ⟨u, rfl⟩ := hr.suffix_of_ok h
  rw [List.append_assoc]
  exact hr.ok h (head?_append_of_ne_nil hrest w)

theorem Local.mismatch_append {r : Rule α} {x : Expectation} (hr : Local r)
    (h : r.read ts = .error (.mismatch rest x)) (hrest : rest ≠ []) (w : List Token) :
    r.read (ts ++ w) = .error (.mismatch (rest ++ w) x) := by
  obtain ⟨u, rfl⟩ := hr.suffix_of_mismatch h
  rw [List.append_assoc]
  exact hr.mismatch h (head?_append_of_ne_nil hrest w)

theorem Closed.ok_append {r : Rule α} {a : α} (hclosed : Closed r) (hr : Local r)
    (h : r.read ts = .ok (a, rest)) (w : List Token) :
    r.read (ts ++ w) = .ok (a, rest ++ w) := by
  obtain ⟨u, rfl⟩ := hr.suffix_of_ok h
  rw [List.append_assoc]
  exact hclosed.exchange (rest ++ w) h

end Exchange

/-! ### The combinators keep locality -/

section Combinators

variable {accepts : Kind → Bool} {x : Expectation} {r : Rule α} {next : α → Rule β}

theorem token_closed : Closed (token accepts x) where
  exchange {u v a} v' h := by
    rw [token_eq_ok] at h ⊢
    obtain ⟨happ, ha⟩ := h
    obtain rfl : u = [a] := (List.append_left_inj v).mp happ
    exact ⟨rfl, ha⟩

theorem token_local : Local (token accepts x) where
  suffix_of_ok h := by
    obtain ⟨rfl, -⟩ := token_eq_ok.mp h
    exact List.suffix_cons _ _
  suffix_of_mismatch h := by
    obtain ⟨he, -⟩ := token_eq_error.mp h
    cases he
    exact List.suffix_refl _
  ok h _ := token_closed.exchange _ h
  mismatch {u v v' y} h hv := by
    obtain ⟨he, hhead⟩ := token_eq_error.mp h
    obtain ⟨happ, rfl⟩ := Failure.mismatch.inj he
    obtain rfl : u = [] := (List.append_left_inj v).mp happ
    rw [List.nil_append] at hhead ⊢
    rw [token_eq_error, hv]
    exact ⟨rfl, hhead⟩

theorem token_ne_tooDeep (ts : List Token) : (token accepts x).read ts ≠ .error .tooDeep := by
  intro h
  cases (token_eq_error.mp h).1

theorem none_ne_tooDeep (ts : List Token) : (none x : Rule α).read ts ≠ .error .tooDeep := by
  intro h
  cases h

theorem none_local : Local (none x : Rule α) where
  suffix_of_ok h := nomatch h
  suffix_of_mismatch h := by
    obtain ⟨rfl, -⟩ := Failure.mismatch.inj (Except.error.inj h)
    exact List.suffix_refl _
  ok h _ := nomatch h
  mismatch {u v v' y} h _ := by
    obtain ⟨happ, rfl⟩ := Failure.mismatch.inj (Except.error.inj h)
    obtain rfl : u = [] := (List.append_left_inj v).mp happ
    rfl

theorem tooDeep_local : Local (tooDeep : Rule α) where
  suffix_of_ok h := nomatch h
  suffix_of_mismatch h := nomatch h
  ok h _ := nomatch h
  mismatch h _ := nomatch h

theorem Local.map (hr : Local r) (f : α → β) : Local (r.map f) where
  suffix_of_ok h := by
    obtain ⟨a, ha, -⟩ := map_eq_ok.mp h
    exact hr.suffix_of_ok ha
  suffix_of_mismatch h := hr.suffix_of_mismatch (map_eq_error.mp h)
  ok h hv := by
    obtain ⟨a, ha, hf⟩ := map_eq_ok.mp h
    exact map_eq_ok.mpr ⟨a, hr.ok ha hv, hf⟩
  mismatch h hv := map_eq_error.mpr (hr.mismatch (map_eq_error.mp h) hv)

theorem Closed.map (hr : Closed r) (f : α → β) : Closed (r.map f) where
  exchange v' h := by
    obtain ⟨a, ha, hf⟩ := map_eq_ok.mp h
    exact map_eq_ok.mpr ⟨a, hr.exchange v' ha, hf⟩

theorem Local.andThen (hr : Local r) (hnext : ∀ a, Local (next a)) :
    Local (r.andThen next) where
  suffix_of_ok h := by
    obtain ⟨a, mid, ha, hb⟩ := andThen_eq_ok.mp h
    exact ((hnext a).suffix_of_ok hb).trans (hr.suffix_of_ok ha)
  suffix_of_mismatch h := by
    rcases andThen_eq_error.mp h with ha | ⟨a, mid, ha, hb⟩
    · exact hr.suffix_of_mismatch ha
    · exact ((hnext a).suffix_of_mismatch hb).trans (hr.suffix_of_ok ha)
  ok {u v v' b} h hv := by
    obtain ⟨a, mid, ha, hb⟩ := andThen_eq_ok.mp h
    -- The first rule leaves `m ++ v`, of which the second one takes `m`.
    obtain ⟨p, m, rfl, rfl⟩ :=
      exists_append_of_suffix (hr.suffix_of_ok ha) ((hnext a).suffix_of_ok hb)
    rw [List.append_assoc] at ha ⊢
    exact andThen_eq_ok.mpr
      ⟨a, m ++ v', hr.ok ha (head?_append_congr hv), (hnext a).ok hb hv⟩
  mismatch {u v v' y} h hv := by
    rcases andThen_eq_error.mp h with ha | ⟨a, mid, ha, hb⟩
    · exact andThen_eq_error.mpr (.inl (hr.mismatch ha hv))
    · obtain ⟨p, m, rfl, rfl⟩ :=
        exists_append_of_suffix (hr.suffix_of_ok ha) ((hnext a).suffix_of_mismatch hb)
      rw [List.append_assoc] at ha ⊢
      exact andThen_eq_error.mpr
        (.inr ⟨a, m ++ v', hr.ok ha (head?_append_congr hv), (hnext a).mismatch hb hv⟩)

theorem Closed.andThen (hr : Local r) (hlocal : ∀ a, Local (next a))
    (hnext : ∀ a, Closed (next a)) : Closed (r.andThen next) where
  exchange {u v b} v' h := by
    obtain ⟨a, mid, ha, hb⟩ := andThen_eq_ok.mp h
    obtain ⟨p, m, rfl, rfl⟩ :=
      exists_append_of_suffix (hr.suffix_of_ok ha) ((hlocal a).suffix_of_ok hb)
    -- The second rule takes a token at least, so the first one does not see what follows.
    have hm : m ≠ [] := by
      rintro rfl
      exact Nat.lt_irrefl _ ((next a).rest_lt hb)
    have hhead : (m ++ v').head? = (m ++ v).head? := by
      rw [head?_append_of_ne_nil hm, head?_append_of_ne_nil hm]
    rw [List.append_assoc] at ha ⊢
    exact andThen_eq_ok.mpr ⟨a, m ++ v', hr.ok ha hhead, (hnext a).exchange v' hb⟩

theorem Local.byHead {choose : Option Kind → Rule α} (h : ∀ k, Local (choose k)) :
    Local (byHead choose) where
  suffix_of_ok hread := (h _).suffix_of_ok hread
  suffix_of_mismatch hread := (h _).suffix_of_mismatch hread
  ok {u v v' a} hread hv := by
    rw [byHead_read] at hread ⊢
    rw [head?_append_congr hv]
    exact (h _).ok hread hv
  mismatch {u v v' y} hread hv := by
    rw [byHead_read] at hread ⊢
    rw [head?_append_congr hv]
    exact (h _).mismatch hread hv

theorem Closed.byHead {choose : Option Kind → Rule α} (h : ∀ k, Closed (choose k)) :
    Closed (byHead choose) where
  exchange {u v a} v' hread := by
    have hu : u ≠ [] := by
      rintro rfl
      exact Nat.lt_irrefl _ ((Rule.byHead choose).rest_lt hread)
    rw [byHead_read, head?_append_of_ne_nil hu] at hread ⊢
    exact (h _).exchange v' hread

end Combinators

/-! ### Chains -/

section Chain

variable {operators : Kind → Bool} {operand : Rule Expr} {left right tree : Expr} {t : Token}
  {ts rest : List Token}

theorem chainRest_stop (ht : operators t.kind = false) :
    chainRest operators operand left (t :: ts) = .ok (left, t :: ts) := by
  rw [chainRest]
  simp [ht]

theorem chainRest_step (ht : operators t.kind = true)
    (hright : operand.read ts = .ok (right, rest)) :
    chainRest operators operand left (t :: ts) =
      chainRest operators operand (.binary left t right) rest := by
  rw [chainRest]
  split
  · split
    · next a b h =>
      rw [hright] at h
      cases h
      rfl
    · next e h =>
      rw [hright] at h
      cases h
  · contradiction

theorem chainRest_error {e : Failure} (ht : operators t.kind = true)
    (hright : operand.read ts = .error e) :
    chainRest operators operand left (t :: ts) = .error e := by
  rw [chainRest]
  split
  · split
    · next a b h =>
      rw [hright] at h
      cases h
    · next e' h =>
      rw [hright] at h
      cases h
      rfl
  · contradiction

theorem chainRest_suffix_of_ok (hr : Local operand)
    (h : chainRest operators operand left ts = .ok (tree, rest)) : rest <:+ ts := by
  fun_induction chainRest operators operand left ts with
  | case1 left =>
      cases h
      exact List.suffix_refl _
  | case2 left t ts _ right mid hright ih =>
      exact ((ih h).trans (hr.suffix_of_ok hright)).trans (List.suffix_cons t ts)
  | case3 => contradiction
  | case4 left t ts _ =>
      cases h
      exact List.suffix_refl _

theorem chainRest_suffix_of_mismatch {x : Expectation} (hr : Local operand)
    (h : chainRest operators operand left ts = .error (.mismatch rest x)) : rest <:+ ts := by
  fun_induction chainRest operators operand left ts with
  | case1 => contradiction
  | case2 left t ts _ right mid hright ih =>
      exact ((ih h).trans (hr.suffix_of_ok hright)).trans (List.suffix_cons t ts)
  | case3 left t ts _ e hright =>
      cases h
      exact (hr.suffix_of_mismatch hright).trans (List.suffix_cons t ts)
  | case4 => contradiction

theorem chainRest_ok_of_head?_eq (hr : Local operand) {u v v' : List Token} (hts : u ++ v = ts)
    (h : chainRest operators operand left ts = .ok (tree, v)) (hv : v'.head? = v.head?) :
    chainRest operators operand left (u ++ v') = .ok (tree, v') := by
  fun_induction chainRest operators operand left ts generalizing u with
  | case1 left =>
      cases h
      obtain ⟨rfl, -⟩ := List.append_eq_nil_iff.mp hts
      obtain rfl := List.head?_eq_none_iff.mp hv
      show chainRest operators operand tree [] = .ok (tree, [])
      rw [chainRest]
  | case2 left t ts ht right mid hright ih =>
      -- The operand leaves `m ++ v`, of which the rest of the chain takes `m`.
      obtain ⟨m, rfl⟩ := chainRest_suffix_of_ok hr h
      obtain ⟨p, rfl⟩ := hr.suffix_of_ok hright
      obtain rfl : u = t :: (p ++ m) := by
        apply (List.append_left_inj v).mp
        simpa using hts
      show chainRest operators operand left (t :: (p ++ m ++ v')) = _
      rw [List.append_assoc, chainRest_step ht (hr.ok hright (head?_append_congr hv))]
      exact ih rfl h
  | case3 => contradiction
  | case4 left t ts ht =>
      cases h
      obtain rfl : u = [] := (List.append_left_inj (t :: ts)).mp hts
      cases v' with
      | nil => contradiction
      | cons t' ts' =>
          obtain rfl : t' = t := by simpa using hv
          exact chainRest_stop (by simpa using ht)

theorem chainRest_mismatch_of_head?_eq {x : Expectation} (hr : Local operand)
    {u v v' : List Token} (hts : u ++ v = ts)
    (h : chainRest operators operand left ts = .error (.mismatch v x))
    (hv : v'.head? = v.head?) :
    chainRest operators operand left (u ++ v') = .error (.mismatch v' x) := by
  fun_induction chainRest operators operand left ts generalizing u with
  | case1 => contradiction
  | case2 left t ts ht right mid hright ih =>
      obtain ⟨m, rfl⟩ := chainRest_suffix_of_mismatch hr h
      obtain ⟨p, rfl⟩ := hr.suffix_of_ok hright
      obtain rfl : u = t :: (p ++ m) := by
        apply (List.append_left_inj v).mp
        simpa using hts
      show chainRest operators operand left (t :: (p ++ m ++ v')) = _
      rw [List.append_assoc, chainRest_step ht (hr.ok hright (head?_append_congr hv))]
      exact ih rfl h
  | case3 left t ts ht e hright =>
      cases h
      obtain ⟨p, rfl⟩ := hr.suffix_of_mismatch hright
      obtain rfl : u = t :: p := by
        apply (List.append_left_inj v).mp
        simpa using hts
      exact chainRest_error ht (hr.mismatch hright hv)
  | case4 => contradiction

theorem Local.chain (hr : Local operand) : Local (chain operators operand) where
  suffix_of_ok h := by
    obtain ⟨left, mid, hleft, hrest⟩ := chain_eq_ok.mp h
    exact (chainRest_suffix_of_ok hr hrest).trans (hr.suffix_of_ok hleft)
  suffix_of_mismatch h := by
    rcases chain_eq_error.mp h with hleft | ⟨left, mid, hleft, hrest⟩
    · exact hr.suffix_of_mismatch hleft
    · exact (chainRest_suffix_of_mismatch hr hrest).trans (hr.suffix_of_ok hleft)
  ok {u v v' tree} h hv := by
    obtain ⟨left, mid, hleft, hrest⟩ := chain_eq_ok.mp h
    obtain ⟨p, m, rfl, rfl⟩ :=
      exists_append_of_suffix (hr.suffix_of_ok hleft) (chainRest_suffix_of_ok hr hrest)
    rw [List.append_assoc] at hleft ⊢
    exact chain_eq_ok.mpr ⟨left, m ++ v', hr.ok hleft (head?_append_congr hv),
      chainRest_ok_of_head?_eq hr rfl hrest hv⟩
  mismatch {u v v' x} h hv := by
    rcases chain_eq_error.mp h with hleft | ⟨left, mid, hleft, hrest⟩
    · exact chain_eq_error.mpr (.inl (hr.mismatch hleft hv))
    · obtain ⟨p, m, rfl, rfl⟩ :=
        exists_append_of_suffix (hr.suffix_of_ok hleft) (chainRest_suffix_of_mismatch hr hrest)
      rw [List.append_assoc] at hleft ⊢
      exact chain_eq_error.mpr (.inr ⟨left, m ++ v', hr.ok hleft (head?_append_congr hv),
        chainRest_mismatch_of_head?_eq hr rfl hrest hv⟩)

end Chain

/-! ### Nesting that is too deep stays too deep -/

section Deep

variable {accepts : Kind → Bool} {x : Expectation} {r : Rule α} {next : α → Rule β}
  {operators : Kind → Bool} {operand : Rule Expr}

theorem token_staysTooDeep : StaysTooDeep (token accepts x) :=
  ⟨fun _ h => absurd h (token_ne_tooDeep _)⟩

theorem none_staysTooDeep : StaysTooDeep (none x : Rule α) := ⟨fun _ h => nomatch h⟩

theorem tooDeep_staysTooDeep : StaysTooDeep (tooDeep : Rule α) := ⟨fun _ _ => rfl⟩

theorem StaysTooDeep.map (hr : StaysTooDeep r) (f : α → β) : StaysTooDeep (r.map f) :=
  ⟨fun w h => map_eq_error.mpr (hr.append w (map_eq_error.mp h))⟩

/-- The second rule must be safe at the end of the tokens, unless the first
one does not care what follows. -/
theorem StaysTooDeep.andThen (hr : StaysTooDeep r) (hlocal : Local r)
    (hnext : ∀ a, StaysTooDeep (next a))
    (hend : Closed r ∨ ∀ a, (next a).read [] ≠ .error .tooDeep) :
    StaysTooDeep (r.andThen next) where
  append {ts} w h := by
    rcases andThen_eq_error.mp h with ha | ⟨a, mid, ha, hb⟩
    · exact andThen_eq_error.mpr (.inl (hr.append w ha))
    · refine andThen_eq_error.mpr (.inr ⟨a, mid ++ w, ?_, (hnext a).append w hb⟩)
      rcases hend with hclosed | hend
      · exact hclosed.ok_append hlocal ha w
      · have hmid : mid ≠ [] := by
          rintro rfl
          exact hend a hb
        exact hlocal.ok_append ha hmid w

theorem StaysTooDeep.byHead {choose : Option Kind → Rule α} (h : ∀ k, StaysTooDeep (choose k))
    (hnil : (choose Option.none).read [] ≠ .error .tooDeep) : StaysTooDeep (byHead choose) where
  append {ts} w hread := by
    have hts : ts ≠ [] := by
      rintro rfl
      exact hnil hread
    rw [byHead_read] at hread ⊢
    rw [head?_append_of_ne_nil hts]
    exact (h _).append w hread

theorem chainRest_staysTooDeep (hr : StaysTooDeep operand) (hlocal : Local operand)
    {left : Expr} {ts : List Token} (w : List Token)
    (h : chainRest operators operand left ts = .error .tooDeep) :
    chainRest operators operand left (ts ++ w) = .error .tooDeep := by
  fun_induction chainRest operators operand left ts with
  | case1 => contradiction
  | case2 left t ts ht right mid hright ih =>
      have hmid : mid ≠ [] := by
        rintro rfl
        rw [chainRest] at h
        contradiction
      rw [List.cons_append, chainRest_step ht (hlocal.ok_append hright hmid w)]
      exact ih h
  | case3 left t ts ht e hright =>
      cases h
      exact chainRest_error ht (hr.append w hright)
  | case4 => contradiction

theorem StaysTooDeep.chain (hr : StaysTooDeep operand) (hlocal : Local operand) :
    StaysTooDeep (chain operators operand) where
  append {ts} w h := by
    rcases chain_eq_error.mp h with hleft | ⟨left, mid, hleft, hrest⟩
    · exact chain_eq_error.mpr (.inl (hr.append w hleft))
    · have hmid : mid ≠ [] := by
        rintro rfl
        rw [chainRest] at hrest
        contradiction
      exact chain_eq_error.mpr (.inr ⟨left, mid ++ w, hlocal.ok_append hleft hmid w,
        chainRest_staysTooDeep hr hlocal w hrest⟩)

end Deep

end Rule

/-! ### The rules of the grammar -/

open Rule

section Expressions

variable {r : Rule Expr}

theorem binaryOver_local (hr : Local r) : Local (binaryOver r) := hr.chain.chain.chain.chain

theorem binaryOver_staysTooDeep (hr : StaysTooDeep r) (hlocal : Local r) :
    StaysTooDeep (binaryOver r) := by
  have hfactor : StaysTooDeep (chain Kind.isMultiplicative r) := hr.chain hlocal
  have hterm : StaysTooDeep (chain Kind.isAdditive _) := hfactor.chain hlocal.chain
  have hcomparison : StaysTooDeep (chain Kind.isComparison _) := hterm.chain hlocal.chain.chain
  exact hcomparison.chain hlocal.chain.chain.chain

theorem grouped_local (hr : Local r) : Local (grouped r) :=
  token_local.andThen fun _ => hr.andThen fun _ => token_local.map _

theorem grouped_staysTooDeep (hr : StaysTooDeep r) (hlocal : Local r) :
    StaysTooDeep (grouped r) := by
  refine token_staysTooDeep.andThen token_local (fun _ => ?_) (.inl token_closed)
  refine hr.andThen hlocal (fun _ => token_staysTooDeep.map _) (.inr fun inner h => ?_)
  exact token_ne_tooDeep _ (map_eq_error.mp h)

theorem primaryOver_local (hr : Local r) : Local (primaryOver r) := by
  refine Local.byHead fun k => ?_
  split
  all_goals first
    | exact token_local.map _
    | exact grouped_local hr
    | exact none_local

theorem primaryOver_staysTooDeep (hr : StaysTooDeep r) (hlocal : Local r) :
    StaysTooDeep (primaryOver r) := by
  refine StaysTooDeep.byHead (fun k => ?_) (none_ne_tooDeep [])
  split
  all_goals first
    | exact token_staysTooDeep.map _
    | exact grouped_staysTooDeep hr hlocal
    | exact none_staysTooDeep

theorem signed_local (hr : Local r) : Local (signed r) :=
  token_local.andThen fun _ => hr.map _

theorem signed_staysTooDeep (hr : StaysTooDeep r) : StaysTooDeep (signed r) :=
  token_staysTooDeep.andThen token_local (fun _ => hr.map _) (.inl token_closed)

end Expressions

section Levels

variable (levels : Nat)

theorem unary_local : Local (unary levels) := by
  induction levels with
  | zero => exact tooDeep_local
  | succ levels ih =>
      refine Local.byHead fun k => ?_
      split
      · exact signed_local ih
      · exact primaryOver_local (binaryOver_local ih)

theorem unary_staysTooDeep : StaysTooDeep (unary levels) := by
  induction levels with
  | zero => exact tooDeep_staysTooDeep
  | succ levels ih =>
      have hlocal := unary_local levels
      refine StaysTooDeep.byHead (fun k => ?_) (none_ne_tooDeep [])
      split
      · exact signed_staysTooDeep ih
      · exact primaryOver_staysTooDeep (binaryOver_staysTooDeep ih hlocal)
          (binaryOver_local hlocal)

theorem expression_local : Local (expression levels) := binaryOver_local (unary_local levels)

theorem expression_staysTooDeep : StaysTooDeep (expression levels) :=
  binaryOver_staysTooDeep (unary_staysTooDeep levels) (unary_local levels)

variable (form : Form) (expected : Expectation)

theorem closed_local : Local (closed levels form expected) :=
  (expression_local levels).andThen fun _ => token_local.map _

theorem closed_closed : Closed (closed levels form expected) :=
  .andThen (expression_local levels) (fun _ => token_local.map _) fun _ => token_closed.map _

theorem closed_staysTooDeep : StaysTooDeep (closed levels form expected) := by
  refine (expression_staysTooDeep levels).andThen (expression_local levels)
    (fun _ => token_staysTooDeep.map _) (.inr fun e h => ?_)
  exact token_ne_tooDeep _ (map_eq_error.mp h)

end Levels

section Statements

variable (levels : Nat)

theorem varDeclaration_local : Local (varDeclaration levels) :=
  token_local.andThen fun _ => token_local.andThen fun _ => token_local.andThen fun _ =>
    closed_local levels _ _

theorem varDeclaration_closed : Closed (varDeclaration levels) :=
  .andThen token_local
    (fun _ => token_local.andThen fun _ => token_local.andThen fun _ => closed_local levels _ _)
    fun _ => .andThen token_local (fun _ => token_local.andThen fun _ => closed_local levels _ _)
      fun _ => .andThen token_local (fun _ => closed_local levels _ _)
        fun _ => closed_closed levels _ _

theorem varDeclaration_staysTooDeep : StaysTooDeep (varDeclaration levels) := by
  refine token_staysTooDeep.andThen token_local (fun _ => ?_) (.inl token_closed)
  refine token_staysTooDeep.andThen token_local (fun _ => ?_) (.inl token_closed)
  refine token_staysTooDeep.andThen token_local (fun _ => ?_) (.inl token_closed)
  exact closed_staysTooDeep levels _ _

theorem printStatement_local : Local (printStatement levels) :=
  token_local.andThen fun _ => closed_local levels _ _

theorem printStatement_closed : Closed (printStatement levels) :=
  .andThen token_local (fun _ => closed_local levels _ _) fun _ => closed_closed levels _ _

theorem printStatement_staysTooDeep : StaysTooDeep (printStatement levels) :=
  token_staysTooDeep.andThen token_local (fun _ => closed_staysTooDeep levels _ _)
    (.inl token_closed)

theorem statement_local : Local (statement levels) := by
  refine Local.byHead fun k => ?_
  split
  · exact varDeclaration_local levels
  · exact printStatement_local levels
  · exact closed_local levels _ _

theorem statement_closed : Closed (statement levels) := by
  refine Closed.byHead fun k => ?_
  split
  · exact varDeclaration_closed levels
  · exact printStatement_closed levels
  · exact closed_closed levels _ _

/-- A statement that is nested too deeply stays so, if there is a token that
tells which kind of statement it is. -/
theorem statement_tooDeep_append {ts : List Token} (hts : ts ≠ []) (w : List Token)
    (h : (statement levels).read ts = .error .tooDeep) :
    (statement levels).read (ts ++ w) = .error .tooDeep := by
  rw [statement, byHead_read] at h ⊢
  rw [head?_append_of_ne_nil hts]
  revert h
  split
  · exact (varDeclaration_staysTooDeep levels).append w
  · exact (printStatement_staysTooDeep levels).append w
  · exact (closed_staysTooDeep levels _ _).append w

end Statements

end MiniLox.Grammar
