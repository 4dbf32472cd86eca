import MiniLox.Proofs.Evaluation.Types
import MiniLox.Proofs.Grammar.Masks
import MiniLox.Proofs.Token.Places

/-!
Programs that differ in the contents of their literals. A mask hides which
number, string or boolean a literal token denotes, and where tokens stand; of
the values it leaves the types. So texts that are the same but for contents
become the same tree under the mask, and a run on types does not look under
it. With runs on types in between, the runs of two such programs end alike.
-/

namespace MiniLox

open Evaluation
open Grammar hiding Failure

/-- The kinds of the tokens of which the text is the content of a value. -/
def Kind.hasContent (k : Kind) : Bool :=
  k == number || k == string || k == trueWord || k == falseWord

/-- One value of each type. -/
def ValueType.sample : ValueType → Value
  | nil => .nil
  | boolean => .boolean true
  | number => .number 0
  | string => .string ""

theorem ValueType.type_sample (type : ValueType) : type.sample.type = type := by
  cases type <;> rfl

namespace Token

/-- What is left of a token without contents and places: its kind, where
`true` and `false` are the same, and its text unless that is a content. -/
def frame (t : Token) : Kind × String :=
  (t.kind.base, if t.kind.hasContent then "" else t.lexeme)

/-- The token with its content hidden, standing nowhere. -/
def masked (t : Token) : Token where
  kind := t.frame.1
  lexeme := t.frame.2
  literal := t.literal.map fun v => v.type.sample
  line := 0

end Token

namespace Grammar.Mask

/-- The mask that hides contents and places. -/
def contents : Mask where
  token := Token.masked
  value v := v.type.sample
  base_kind t := by
    show t.kind.base.base = t.kind.base
    cases t.kind <;> rfl
  denoted t ht := by
    obtain ⟨kind, lexeme, literal, line, column⟩ := t
    cases kind with
    | falseWord | trueWord | nilWord => rfl
    | number | string => cases literal <;> rfl
    | _ => contradiction
  closing := rfl

end Grammar.Mask

/-! ### Runs on types under the mask -/

/-- The error with the content of its token hidden. -/
def RuntimeError.masked (e : RuntimeError) : RuntimeError where
  token := e.token.masked
  fault := e.fault

theorem ValueType.unary_masked (operator : Token) (right : ValueType) :
    unary operator.masked right = (unary operator right).mapError RuntimeError.masked := by
  have htest : unary? .falseWord = unary? .trueWord := rfl
  have hkind : unary? operator.masked.kind = unary? operator.kind :=
    Kind.apply_base htest operator.kind
  unfold unary
  rw [hkind]
  cases unary? operator.kind right <;> rfl

theorem ValueType.binary_masked (operator : Token) (left right : ValueType) :
    binary operator.masked left right =
      (binary operator left right).mapError RuntimeError.masked := by
  have htest : binary? .falseWord = binary? .trueWord := rfl
  have htest' : misfit .falseWord = misfit .trueWord := rfl
  have hkind : binary? operator.masked.kind = binary? operator.kind :=
    Kind.apply_base htest operator.kind
  have hmisfit : misfit operator.masked.kind = misfit operator.kind :=
    Kind.apply_base htest' operator.kind
  unfold binary
  rw [hkind, hmisfit]
  cases binary? operator.kind left right <;> rfl

theorem Token.lexeme_masked {t : Token} (h : t.kind = .identifier) :
    t.masked.lexeme = t.lexeme := by
  simp [masked, frame, h, Kind.hasContent]

theorem Expr.Layered.typeOf_masked {e : Expr} (h : e.Layered) (types : Types) :
    (Mask.contents.expr e).typeOf types = (e.typeOf types).mapError RuntimeError.masked := by
  induction e with
  | literal value => exact congrArg Except.ok (ValueType.type_sample value.type)
  | group inner ih => exact ih h
  | name token =>
      show (name token.masked).typeOf types = _
      rw [typeOf, typeOf, Token.lexeme_masked h]
      cases types token.lexeme <;> rfl
  | unary operator right ih =>
      obtain ⟨-, hright, -⟩ := h
      show (unary operator.masked (Mask.contents.expr right)).typeOf types = _
      rw [typeOf, typeOf, ih hright]
      cases right.typeOf types with
      | error e => rfl
      | ok r => exact ValueType.unary_masked operator r
  | binary left operator right ihleft ihright =>
      obtain ⟨-, hleft, hright, -⟩ := h
      show (binary (Mask.contents.expr left) operator.masked
        (Mask.contents.expr right)).typeOf types = _
      rw [typeOf, typeOf, ihleft hleft, ihright hright]
      cases left.typeOf types with
      | error e => rfl
      | ok l =>
          cases right.typeOf types with
          | error e => rfl
          | ok r => exact ValueType.binary_masked operator l r
  | misplaced form body => exact h.elim

/-- The run with the content of the token that ended it hidden. -/
def TypesRun.masked (typed : TypesRun) : TypesRun where
  types := typed.types
  printed := typed.printed
  error := typed.error.map RuntimeError.masked

theorem Types.perform_masked {form : Form} (h : form.Named) (types : Types) (type : ValueType) :
    types.perform type (Mask.contents.form form) = types.perform type form := by
  cases form with
  | expression | print => rfl
  | var name =>
      show (types.bind name.masked.lexeme type, []) = (types.bind name.lexeme type, [])
      rw [Token.lexeme_masked h]

/-- Contents and places do not show in a run on types but at the token of the
error. -/
theorem Types.run_masked (types : Types) {ss : List Stmt} (h : ∀ s ∈ ss, s.Layered) :
    types.run (ss.map Mask.contents.stmt) = (types.run ss).masked := by
  induction ss generalizing types with
  | nil => rfl
  | cons s ss ih =>
      obtain ⟨hnamed, hlayered⟩ := h s (List.mem_cons_self ..)
      have htype : (Mask.contents.stmt s).expr.typeOf types =
          (s.expr.typeOf types).mapError RuntimeError.masked :=
        hlayered.typeOf_masked types
      have hrest (next : Types) := ih next fun s' hs' => h s' (List.mem_cons_of_mem s hs')
      have hperform (type : ValueType) :
          types.perform type (Mask.contents.stmt s).form = types.perform type s.form :=
        perform_masked hnamed types type
      rw [List.map_cons, run, run, htype]
      cases s.expr.typeOf types with
      | error e => rfl
      | ok type =>
          have hok : (Except.ok type).mapError RuntimeError.masked = .ok type := rfl
          simp only [hok, hperform, hrest]
          rfl

/-! ### Texts that are the same but for contents -/

namespace Token

/-- The type of the literal that tokens of a kind have when they are
scanned. -/
def literalType? : Kind → Option ValueType
  | .number => some .number
  | .string => some .string
  | _ => none

theorem literal_of_spells {kind : Kind} {literal : Option Value} {u : List Char}
    (h : Lexeme.Spells (.token kind literal) u) : literal.map Value.type = literalType? kind := by
  cases h with
  | symbol h =>
      have hall : ∀ entry ∈ Lexeme.symbols, none = literalType? entry.2 := by decide
      exact hall _ h
  | keyword h =>
      have hall : ∀ entry ∈ Kind.keywords, none = literalType? entry.2 := by decide
      exact hall _ h
  | identifier | whole | fractional | string => rfl

theorem literal_of_mem_scan {source : String} {tokens : List Token}
    (hscan : scan source = .ok tokens) {t : Token} (ht : t ∈ tokens) :
    t.literal.map Value.type = literalType? t.kind := by
  rcases mem_scan_cases hscan ht with ⟨p, rfl⟩ | ⟨before, hcut⟩
  · rfl
  · exact literal_of_spells hcut.spells

/-- What a mask leaves of a scanned token can be told from its frame. -/
theorem map_masked_congr {source source' : String} {tokens tokens' : List Token}
    (hscan : scan source = .ok tokens) (hscan' : scan source' = .ok tokens')
    (hframes : tokens.map frame = tokens'.map frame) :
    tokens.map masked = tokens'.map masked := by
  let ofFrame (f : Kind × String) : Token :=
    { kind := f.1, lexeme := f.2, literal := (literalType? f.1).map ValueType.sample, line := 0 }
  have hmasked {s : String} {ts : List Token} (hs : scan s = .ok ts) :
      ts.map masked = (ts.map frame).map ofFrame := by
    rw [List.map_map]
    refine List.map_congr_left fun t ht => ?_
    have hliteral : t.literal.map (fun v => v.type.sample) =
        (literalType? t.frame.1).map ValueType.sample := by
      have hbase : literalType? t.frame.1 = literalType? t.kind := Kind.apply_base rfl t.kind
      rw [hbase, ← literal_of_mem_scan hs ht, Option.map_map]
      rfl
    rw [masked, hliteral]
    rfl
  rw [hmasked hscan, hmasked hscan', hframes]

end Token

/-- Two runs that differ in contents alone: if one fails the other one does,
for the same reason at tokens of one kind and text; they print values of the
same types, and leave values of the same types bound to the names. -/
structure Execution.Alike (ran ran' : Execution) : Prop where
  succeeds : ran.failure = none ↔ ran'.failure = none
  fails : ∀ e, ran.failure = some (.error e) → ∃ e', ran'.failure = some (.error e') ∧
    e'.token.kind = e.token.kind ∧ e'.token.lexeme = e.token.lexeme ∧ e'.fault = e.fault ∧
      e'.message = e.message
  printed : ran.printed.map Value.type = ran'.printed.map Value.type
  lookup : ∀ name,
    (ran.machine.lookup name).map Value.type = (ran'.machine.lookup name).map Value.type

/-- An operator or a name has no content. -/
theorem Kind.base_of_canFail {k : Kind} (h : k.canFail = true) :
    k.base = k ∧ k.hasContent = false := by
  cases k <;> first | contradiction | exact ⟨rfl, rfl⟩

theorem Token.eq_of_masked_eq {t t' : Token} (h : t.masked = t'.masked)
    (ht : t.kind.canFail = true) (ht' : t'.kind.canFail = true) :
    t.kind = t'.kind ∧ t.lexeme = t'.lexeme := by
  obtain ⟨hbase, hcontent⟩ := Kind.base_of_canFail ht
  obtain ⟨hbase', hcontent'⟩ := Kind.base_of_canFail ht'
  have hkind : t.kind.base = t'.kind.base := congrArg Token.kind h
  have hlexeme : t.masked.lexeme = t'.masked.lexeme := congrArg Token.lexeme h
  rw [hbase, hbase'] at hkind
  simp only [masked, frame, hcontent, hcontent'] at hlexeme
  exact ⟨hkind, hlexeme⟩

namespace Machine

/-- The statements of a text, as far as they are taken, do on values what they
do on types. -/
theorem run_take_follows {nesting height : Nat} {tokens : List Token}
    (hdeep : ((initial height).run (Program.ofTokens nesting tokens).statements).failure ≠
      some .tooDeep)
    (n : Nat) :
    ((initial height).run ((Program.ofTokens nesting tokens).statements.take n)).Follows
      (Types.empty.run ((Program.ofTokens nesting tokens).statements.take n)) := by
  have hlookup (name : String) :
      ((initial height).lookup name).map Value.type = Types.empty name := by
    rw [lookup_initial]
    rfl
  refine run_follows hlookup (fun s hs => ?_) (mt failure_of_run_take hdeep)
  exact (Program.layered_of_mem (List.mem_of_mem_take hs)).expr

end Machine

theorem RuntimeError.message_congr {e e' : RuntimeError} (htoken : e'.token.lexeme = e.token.lexeme)
    (hfault : e'.fault = e.fault) : e'.message = e.message := by
  simp only [message, htoken, hfault]

theorem TypesRun.error_cases {typed typed' : TypesRun} (h : typed.masked = typed'.masked) :
    (typed.error = none ∧ typed'.error = none) ∨
      ∃ e e', typed.error = some e ∧ typed'.error = some e' ∧ e.masked = e'.masked := by
  have herror : typed.error.map RuntimeError.masked = typed'.error.map RuntimeError.masked :=
    congrArg TypesRun.error h
  cases he : typed.error with
  | none =>
      rw [he] at herror
      exact .inl ⟨rfl, Option.map_eq_none_iff.mp herror.symm⟩
  | some e =>
      rw [he] at herror
      obtain ⟨e', he', hmasked⟩ := Option.map_eq_some_iff.mp herror.symm
      exact .inr ⟨e, e', rfl, he', hmasked.symm⟩

/-- Runs are alike if the runs on types that they follow are the same under
the mask, and they fail where there is no content to be hidden. -/
theorem Execution.Follows.alike {ran ran' : Execution} {typed typed' : TypesRun}
    (h : ran.Follows typed) (h' : ran'.Follows typed') (hmasked : typed.masked = typed'.masked)
    (hcanFail : ∀ e, ran.failure = some (.error e) → e.token.kind.canFail = true)
    (hcanFail' : ∀ e, ran'.failure = some (.error e) → e.token.kind.canFail = true) :
    ran.Alike ran' := by
  have hprinted : ran.printed.map Value.type = ran'.printed.map Value.type := by
    rw [h.printed, h'.printed]
    show typed.masked.printed = typed'.masked.printed
    rw [hmasked]
  have hlookup (name : String) :
      (ran.machine.lookup name).map Value.type = (ran'.machine.lookup name).map Value.type := by
    rw [h.lookup, h'.lookup]
    show typed.masked.types name = typed'.masked.types name
    rw [hmasked]
  rcases TypesRun.error_cases hmasked with ⟨herror, herror'⟩ | ⟨e, e', herror, herror', htokens⟩
  · have hfailure : ran.failure = none := by
      rw [h.failure, herror]
      rfl
    have hfailure' : ran'.failure = none := by
      rw [h'.failure, herror']
      rfl
    refine ⟨by rw [hfailure, hfailure'], fun e he => ?_, hprinted, hlookup⟩
    rw [hfailure] at he
    contradiction
  · have hfailure : ran.failure = some (.error e) := by
      rw [h.failure, herror]
      rfl
    have hfailure' : ran'.failure = some (.error e') := by
      rw [h'.failure, herror']
      rfl
    have hfault : e.masked.fault = e'.masked.fault := congrArg RuntimeError.fault htokens
    have htoken : e.token.masked = e'.token.masked := congrArg RuntimeError.token htokens
    obtain ⟨hkind, hlexeme⟩ :=
      Token.eq_of_masked_eq htoken (hcanFail e hfailure) (hcanFail' e' hfailure')
    refine ⟨by simp [hfailure, hfailure'], fun e₁ he₁ => ?_, hprinted, hlookup⟩
    obtain rfl : e = e₁ :=
      Evaluation.Failure.error.inj (Option.some.inj (hfailure.symm.trans he₁))
    exact ⟨e', hfailure', hkind.symm, hlexeme.symm, hfault.symm,
      RuntimeError.message_congr hlexeme.symm hfault.symm⟩

/-- The runs of two texts that are the same but for contents. -/
theorem Machine.run_take_alike {nesting height : Nat} {source source' : String}
    {tokens tokens' : List Token}
    (hscan : Token.scan source = .ok tokens) (hscan' : Token.scan source' = .ok tokens')
    (hframes : tokens.map Token.frame = tokens'.map Token.frame)
    (hdeep : ((initial height).run (Program.ofTokens nesting tokens).statements).failure ≠
      some .tooDeep)
    (hdeep' : ((initial height).run (Program.ofTokens nesting tokens').statements).failure ≠
      some .tooDeep)
    (n : Nat) :
    ((initial height).run ((Program.ofTokens nesting tokens).statements.take n)).Alike
      ((initial height).run ((Program.ofTokens nesting tokens').statements.take n)) := by
  have hmasked : (Program.ofTokens nesting tokens).statements.map Mask.contents.stmt =
      (Program.ofTokens nesting tokens').statements.map Mask.contents.stmt := by
    rw [← Mask.statements_program, ← Mask.statements_program, ← Mask.ofTokens_map,
      ← Mask.ofTokens_map]
    exact congrArg (fun ts => (Program.ofTokens nesting ts).statements)
      (Token.map_masked_congr hscan hscan' hframes)
  have hlayered {ts : List Token} :
      ∀ s ∈ (Program.ofTokens nesting ts).statements.take n, s.Layered :=
    fun s hs => Program.layered_of_mem (List.mem_of_mem_take hs)
  have htypes : (Types.empty.run ((Program.ofTokens nesting tokens).statements.take n)).masked =
      (Types.empty.run ((Program.ofTokens nesting tokens').statements.take n)).masked := by
    rw [← Types.run_masked _ hlayered, ← Types.run_masked _ hlayered, List.map_take, hmasked,
      List.map_take]
  exact (run_take_follows hdeep n).alike (run_take_follows hdeep' n) htypes
    (fun _ he => (token_of_run_error (failure_of_run_take he)).2)
    (fun _ he => (token_of_run_error (failure_of_run_take he)).2)

/-- No value decides how a run ends. However many statements of a text are
taken, they fail on values if they fail on types, with one and the same error,
and what is printed and bound has the types that the run on types says. So two
texts that are the same but for the contents of their literals fail alike or
succeed alike. -/
theorem failures_depend_on_types_only (nesting height : Nat) :
    (∀ tokens : List Token,
      let statements := (Program.ofTokens nesting tokens).statements
      ((Machine.initial height).run statements).failure ≠ some .tooDeep →
        ∀ n, ((Machine.initial height).run (statements.take n)).Follows
          (Types.empty.run (statements.take n))) ∧
    ∀ (source source' : String) (tokens tokens' : List Token),
      Token.scan source = .ok tokens → Token.scan source' = .ok tokens' →
      tokens.map Token.frame = tokens'.map Token.frame →
      let statements := (Program.ofTokens nesting tokens).statements
      let statements' := (Program.ofTokens nesting tokens').statements
      ((Machine.initial height).run statements).failure ≠ some .tooDeep →
      ((Machine.initial height).run statements').failure ≠ some .tooDeep →
        ∀ n, ((Machine.initial height).run (statements.take n)).Alike
          ((Machine.initial height).run (statements'.take n)) := by
  constructor
  · intro tokens statements hdeep n
    exact Machine.run_take_follows hdeep n
  · intro source source' tokens tokens' hscan hscan' hframes statements statements' hdeep hdeep' n
    exact Machine.run_take_alike hscan hscan' hframes hdeep hdeep' n

/-- The text of the token that a run has failed at, and what is wrong there. -/
def Execution.blame? (ran : Execution) : Option (String × RuntimeFault) :=
  match ran.failure with
  | some (.error e) => some (e.token.lexeme, e.fault)
  | _ => none

def division : String := "var x = 1 / 0; print x; print x - \"a\";"

/-- The same text with other contents. -/
def division' : String := "var x = 22.5 / 7; print x; print x - \"\n\";"

theorem failures_depend_on_types_only_division :
    ∃ tokens tokens', Token.scan division = .ok tokens ∧ Token.scan division' = .ok tokens' ∧
      tokens.map Token.frame = tokens'.map Token.frame ∧
      ((Machine.initial 4).run (Program.ofTokens 4 tokens).statements).blame? =
        some ("-", .operands .number .string) ∧
      ((Machine.initial 4).run ((Program.ofTokens 4 tokens).statements.take 3)).Follows
        (Types.empty.run ((Program.ofTokens 4 tokens).statements.take 3)) ∧
      ((Machine.initial 4).run ((Program.ofTokens 4 tokens).statements.take 3)).Alike
        ((Machine.initial 4).run ((Program.ofTokens 4 tokens').statements.take 3)) := by
  have hframes : (Token.scan division).toOption.map (List.map Token.frame) =
      (Token.scan division').toOption.map (List.map Token.frame) := by
    decide +kernel
  have hblame (s : String) (hs : s = division ∨ s = division') :
      (Token.scan s).toOption.map
          (fun tokens => ((Machine.initial 4).run (Program.ofTokens 4 tokens).statements).blame?) =
        some (some ("-", .operands .number .string)) := by
    rcases hs with rfl | rfl
    · decide +kernel
    · decide +kernel
  have htokens (s : String) (hs : s = division ∨ s = division') :
      ∃ tokens, Token.scan s = .ok tokens ∧
        ((Machine.initial 4).run (Program.ofTokens 4 tokens).statements).blame? =
          some ("-", .operands .number .string) := by
    have h := hblame s hs
    cases hscan : Token.scan s with
    | error e =>
        rw [hscan] at h
        contradiction
    | ok tokens =>
        rw [hscan] at h
        exact ⟨tokens, rfl, Option.some.inj h⟩
  have hshallow {ran : Execution} (h : ran.blame? = some ("-", .operands .number .string)) :
      ran.failure ≠ some .tooDeep := by
    intro hdeep
    rw [Execution.blame?, hdeep] at h
    contradiction
  obtain ⟨tokens, hscan, htokens₁⟩ := htokens division (.inl rfl)
  obtain ⟨tokens', hscan', htokens₂⟩ := htokens division' (.inr rfl)
  rw [hscan, hscan'] at hframes
  have hsame : tokens.map Token.frame = tokens'.map Token.frame := Option.some.inj hframes
  exact ⟨tokens, tokens', hscan, hscan', hsame, htokens₁,
    (failures_depend_on_types_only 4 4).1 tokens (hshallow htokens₁) 3,
    (failures_depend_on_types_only 4 4).2 _ _ tokens tokens' hscan hscan' hsame (hshallow htokens₁)
      (hshallow htokens₂) 3⟩

end MiniLox
