import MiniLox.Proofs.Evaluation.Groups
import MiniLox.Proofs.Runner.Placement

/-!
Programs with explicit parentheses. Whatever shape a tree has, there are tokens that
are read as this tree with groups around its operands, and the groups make no
difference when the tree is evaluated. So nothing is lost and nothing changes if a
program is written out with all of its parentheses: it prints the same and fails
with the same message.
-/

namespace MiniLox

open Evaluation
open Grammar hiding Failure

/-- The second text is the first one written out. Both have tokens without too much
nesting and the first one has no mistakes; and the tokens of the second one are
those of the statements of the first one, in other places, with every operand in
parentheses that has an operator at its root. -/
structure Parenthesized (nesting : Nat) (source source' : String) (tokens tokens' : List Token) :
    Prop where
  scan : Token.scan source = .ok tokens
  scan' : Token.scan source' = .ok tokens'
  read : (Program.ofTokens nesting tokens).tooDeep = false
  read' : (Program.ofTokens nesting tokens').tooDeep = false
  correct : (Program.ofTokens nesting tokens).errors = []
  writtenOut : ∃ S ts last,
    S.map Mask.places.stmt = (Program.ofTokens nesting tokens).statements.map Mask.places.stmt ∧
      Stmt.AllWrittenOut S ts ∧ last.kind = .endOfText ∧ tokens' = ts ++ [last]

variable {nesting : Nat} {source source' : String} {tokens tokens' : List Token}

namespace Parenthesized

/-- What is read from the second text. -/
theorem exists_statements (h : Parenthesized nesting source source' tokens tokens') :
    ∃ S : List Stmt,
      S.map Mask.places.stmt = (Program.ofTokens nesting tokens).statements.map Mask.places.stmt ∧
        (Program.ofTokens nesting tokens').statements = S.map Stmt.explicit ∧
        ∀ s ∈ S, s.expr.explicit.height ≤ 2 * nesting := by
  obtain ⟨S, ts, last, hS, hwritten, hlast, rfl⟩ := h.writtenOut
  obtain ⟨-, hstatements, hheight⟩ := Program.accepts_writtenOut hwritten hlast h.read'
  exact ⟨S, hS, hstatements, hheight⟩

theorem correct' (h : Parenthesized nesting source source' tokens tokens') :
    (Program.ofTokens nesting tokens').errors = [] := by
  obtain ⟨S, ts, last, -, hwritten, hlast, rfl⟩ := h.writtenOut
  exact (Program.accepts_writtenOut hwritten hlast h.read').1

/-- Apart from places both programs run alike. -/
theorem run_unplaced (h : Parenthesized nesting source source' tokens tokens') {m : Machine}
    (hran : (m.run (Program.ofTokens nesting tokens').statements).failure ≠ some .tooDeep) :
    (m.run (Program.ofTokens nesting tokens').statements).unplaced =
      (m.run (Program.ofTokens nesting tokens).statements).unplaced := by
  obtain ⟨S, hS, hstatements, -⟩ := h.exists_statements
  rw [hstatements] at hran ⊢
  rw [m.run_explicit hran, ← Machine.run_unplaced, hS, Machine.run_unplaced]

/-- One level of nesting makes a tree two levels higher, one for the group and one for the operator
in it. -/
theorem run_failure_ne_tooDeep (h : Parenthesized nesting source source' tokens tokens')
    {m : Machine} (hlevels : 2 * nesting ≤ m.levels) :
    (m.run (Program.ofTokens nesting tokens').statements).failure ≠ some .tooDeep := by
  obtain ⟨S, -, hstatements, hheight⟩ := h.exists_statements
  rw [hstatements]
  refine Machine.run_failure_ne_tooDeep ?_
  rw [List.forall_mem_map]
  exact fun s hs => (hheight s hs).trans hlevels

end Parenthesized

namespace Runner

variable {limits : Limits} {path : String}

/-- If the second text is low enough for a runner that shows nothing, the first one is. -/
theorem shallow_of_parenthesized (h : Parenthesized limits.nesting source source' tokens tokens')
    (hs' : Shallow { path := path, limits := limits } tokens') :
    Shallow { path := path, limits := limits } tokens where
  read := h.read
  showable := nofun
  evaluated hdeep :=
    hs'.evaluated (Execution.failure_eq_tooDeep_of (h.run_unplaced hs'.evaluated).symm hdeep)

/-- What two runs have in common whose texts differ in parentheses and places alone:
how they end, what they print and what they leave of the reporter; and either
nothing is written about them, or they fail with the same message at tokens that show
the same. -/
structure Agree (r : Reporter) (source source' : String) (ran ran' : Run) : Prop where
  outcome : ran'.outcome = ran.outcome
  out : ran'.out = ran.out
  reporter : ran'.reporter = ran.reporter
  err : ran.err = "" ∧ ran'.err = "" ∨ ∃ e e' : RuntimeError,
    ran.err = ((r.register source).throw e.diagnostic).err ∧
      ran'.err = ((r.register source').throw e'.diagnostic).err ∧
        e'.token.face = e.token.face ∧ e'.message = e.message

theorem agree_of_parenthesized (h : Parenthesized limits.nesting source source' tokens tokens')
    (hs' : Shallow { path := path, limits := limits } tokens') (r : Reporter) :
    let s : Runner := { path := path, limits := limits }
    Agree r source source' (s.run r source) (s.run r source') := by
  intro s
  have hs : s.Shallow tokens := shallow_of_parenthesized h hs'
  have herrors : (s.program tokens).errors = [] := h.correct
  have herrors' : (s.program tokens').errors = [] := h.correct'
  have hunplaced : (s.machine.run (s.program tokens').statements).unplaced =
      (s.machine.run (s.program tokens).statements).unplaced :=
    h.run_unplaced hs'.evaluated
  have hmistakes : s.mistakes source = [] := by
    rw [s.mistakes_of_scan_ok h.scan, herrors, List.map_nil]
  have hmistakes' : s.mistakes source' = [] := by
    rw [s.mistakes_of_scan_ok h.scan', herrors', List.map_nil]
  have hreporter (failed : Bool) :
      s.reporterAfter r source' failed = s.reporterAfter r source failed := by
    rw [reporterAfter, reporterAfter, hmistakes, hmistakes']
  have houtput : (s.machine.run (s.program tokens').statements).output =
      (s.machine.run (s.program tokens).statements).output :=
    Execution.output_eq_of hunplaced
  cases hran : (s.machine.run (s.program tokens).statements).failure with
  | none =>
      have hran' := (Execution.failure_eq_none_iff hunplaced).mpr hran
      rw [run_of_success h.scan hs hran, run_of_success h.scan' hs' hran', hmistakes, hmistakes',
        houtput]
      exact ⟨rfl, rfl, hreporter false, .inl ⟨rfl, rfl⟩⟩
  | some failure =>
      rcases Machine.run_failure_of_tokens hran with rfl | ⟨e, rfl, -, -⟩
      · exact absurd hran hs.evaluated
      obtain ⟨e', hran', hface, -, hmessage⟩ :=
        Execution.exists_error_of hunplaced.symm hran
      rw [run_of_failure h.scan hs hran, run_of_failure h.scan' hs' hran', hmistakes, hmistakes',
        houtput]
      exact ⟨rfl, rfl, hreporter true,
        .inr ⟨e, e', String.empty_append, String.empty_append, hface, hmessage⟩⟩

end Runner

/-- Explicit parentheses override precedence and nothing else. A tree of any shape can
be written out with its operands in parentheses, and that is read without a mistake as
one statement, with groups around these operands. The groups change neither the value
of the tree nor what it fails with. So a text and the same text written out run alike:
they print the same, and they fail with the same message or not at all. -/
theorem parentheses_only_override_precedence (limits : Limits) :
    (∀ e : Expr, e.Composed → ∃ ts, e.WrittenOut ts) ∧
      (∀ (e : Expr) (ts : List Token) (semicolon last : Token), e.WrittenOut ts →
        semicolon.kind = .semicolon → last.kind = .endOfText →
          (Program.ofTokens limits.nesting (ts ++ [semicolon, last])).tooDeep = false →
            (Program.ofTokens limits.nesting (ts ++ [semicolon, last])).errors = [] ∧
              (Program.ofTokens limits.nesting (ts ++ [semicolon, last])).statements =
                  [{ form := .expression, expr := e.explicit }] ∧
                ∀ m : Machine, 2 * limits.nesting ≤ m.levels →
                  m.evaluate e.explicit = m.evaluate e) ∧
      (∀ (e : Expr) (lookup : String → Option Value) (levels : Nat),
        e.explicit.evaluate lookup levels ≠ .error .tooDeep →
          e.explicit.evaluate lookup levels = e.evaluate lookup levels) ∧
      (∀ tokens : List Token,
        ∃ ts, Stmt.AllWrittenOut (Program.ofTokens limits.nesting tokens).statements ts) ∧
      ∀ (source source' : String) (tokens tokens' : List Token),
        Parenthesized limits.nesting source source' tokens tokens' →
          (Program.ofTokens limits.nesting tokens').errors = [] ∧
            (∀ m : Machine,
              (m.run (Program.ofTokens limits.nesting tokens').statements).failure ≠ some .tooDeep →
                (m.run (Program.ofTokens limits.nesting tokens').statements).unplaced =
                  (m.run (Program.ofTokens limits.nesting tokens).statements).unplaced) ∧
            (∀ m : Machine, 2 * limits.nesting ≤ m.levels →
              (m.run (Program.ofTokens limits.nesting tokens').statements).failure ≠
                some .tooDeep) ∧
            ∀ path : String,
              let s : Runner := { path := path, limits := limits }
              (2 * limits.nesting ≤ limits.height → s.Shallow tokens') ∧
                (s.Shallow tokens' →
                  ∀ r, Runner.Agree r source source' (s.run r source) (s.run r source')) := by
  refine ⟨fun e he => he.exists_writtenOut,
    fun e ts semicolon last he hsemicolon hlast hdeep => ?_, fun e lookup levels hdeep => ?_,
    fun tokens => ?_, fun source source' tokens tokens' h => ?_⟩
  · have hwritten : Stmt.AllWrittenOut [{ form := .expression, expr := e }]
        ((ts ++ [semicolon]) ++ []) :=
      .cons (.expression ⟨semicolon, beq_iff_eq.mpr hsemicolon⟩ he) .nil
    have hsplit : ts ++ [semicolon, last] = (ts ++ [semicolon]) ++ [] ++ [last] := by simp
    rw [hsplit] at hdeep ⊢
    obtain ⟨herrors, hstatements, hheight⟩ := Program.accepts_writtenOut hwritten hlast hdeep
    refine ⟨herrors, hstatements, fun m hlevels => m.evaluate_explicit ?_⟩
    exact Expr.evaluate_ne_tooDeep ((hheight _ (List.mem_singleton.mpr rfl)).trans hlevels)
  · exact ((e.follows_explicit lookup).evaluate_eq (Nat.le_refl levels) hdeep).symm
  · exact Stmt.exists_allWrittenOut fun s hs => (Program.layered_of_mem hs).composed
  · refine ⟨h.correct', fun m hran => h.run_unplaced hran,
      fun m hlevels => h.run_failure_ne_tooDeep hlevels, fun path => ⟨fun hlevels => ?_, ?_⟩⟩
    · exact ⟨h.read', nofun, h.run_failure_ne_tooDeep hlevels⟩
    · exact fun hs' r => Runner.agree_of_parenthesized h hs' r

/-! ### Rows of operators -/

-- Trees are compared here as they are, with the places in them.
deriving instance DecidableEq for Value, Token, Form, Expr, Stmt

/-- The tokens of a text, if it has any. -/
def scanned (source : String) : List Token := (Token.scan source).toOption.getD []

theorem scan_eq_ok_scanned (h : (Token.scan source).toOption.isSome = true) :
    Token.scan source = .ok (scanned source) := by
  cases hscan : Token.scan source with
  | error e =>
      rw [hscan] at h
      contradiction
  | ok tokens =>
      rw [scanned, hscan]
      rfl

/-- Operators in a row, and a sum that fails at its sign. -/
def rows : String := "print nil==nil==nil;-nil+nil;"

/-- The same written out. -/
def rowsWrittenOut : String := "print (nil==nil)==nil;(-nil)+nil;"

/-- A token of the first line at a column. -/
def tokenAt (k : Kind) (lexeme : String) (column : Int) : Token :=
  { Grammar.word k lexeme with column := column }

theorem rows_parenthesized :
    Parenthesized Limits.ample.nesting rows rowsWrittenOut (scanned rows)
      (scanned rowsWrittenOut) := by
  have hwritten := Stmt.AllWrittenOut.cons
    (.print ⟨tokenAt .printWord "print" 0, rfl⟩ ⟨tokenAt .semicolon ";" 21, rfl⟩
      (.binary ⟨tokenAt .equalEqual "==" 16, rfl⟩
        (.binary ⟨tokenAt .equalEqual "==" 10, rfl⟩
          (.literal ⟨tokenAt .nilWord "nil" 7, rfl⟩) (.bare rfl)
          (.literal ⟨tokenAt .nilWord "nil" 12, rfl⟩) (.bare rfl))
        (.inParens rfl ⟨tokenAt .leftParen "(" 6, rfl⟩ ⟨tokenAt .rightParen ")" 15, rfl⟩)
        (.literal ⟨tokenAt .nilWord "nil" 18, rfl⟩) (.bare rfl)))
    (.cons
      (.expression ⟨tokenAt .semicolon ";" 32, rfl⟩
        (.binary ⟨tokenAt .plus "+" 28, rfl⟩
          (.unary ⟨tokenAt .minus "-" 23, rfl⟩
            (.literal ⟨tokenAt .nilWord "nil" 24, rfl⟩) (.bare rfl))
          (.inParens rfl ⟨tokenAt .leftParen "(" 22, rfl⟩ ⟨tokenAt .rightParen ")" 27, rfl⟩)
          (.literal ⟨tokenAt .nilWord "nil" 29, rfl⟩) (.bare rfl)))
      .nil)
  refine ⟨scan_eq_ok_scanned (by decide +kernel), scan_eq_ok_scanned (by decide +kernel),
    by decide +kernel, by decide +kernel, List.isEmpty_iff.mp (by decide +kernel),
    _, _, tokenAt .endOfText "" 33, ?_, hwritten, rfl, ?_⟩
  · decide +kernel
  · decide +kernel

/-- The tree that takes a difference from `a`. No text without parentheses has it. -/
def nestedDifference : Expr :=
  .binary (.name (word .identifier "a")) (word .minus "-")
    (.binary (.name (word .identifier "b")) (word .minus "-") (.name (word .identifier "c")))

/-- The tokens of `a - (b - c)`. -/
def nestedDifferenceTokens : List Token :=
  [word .identifier "a", word .minus "-", word .leftParen "(", word .identifier "b",
    word .minus "-", word .identifier "c", word .rightParen ")"]

theorem parentheses_only_override_precedence_rows :
    nestedDifference.Composed ∧ nestedDifference.WrittenOut nestedDifferenceTokens ∧
      (Program.ofTokens Limits.ample.nesting
          (nestedDifferenceTokens ++ [word .semicolon ";", word .endOfText ""])).statements =
        [{ form := .expression, expr := nestedDifference.explicit }] ∧
      nestedDifference.explicit.evaluate (fun _ => some .nil) 8 =
        nestedDifference.evaluate (fun _ => some .nil) 8 ∧
      (Runner.sample.run {} rowsWrittenOut).out = "false\n" ∧
      (Runner.sample.run {} rowsWrittenOut).reporter.hadRuntimeError = true := by
  obtain ⟨-, hread, hevaluated, -, hagree⟩ := parentheses_only_override_precedence .ample
  have hwritten : nestedDifference.WrittenOut nestedDifferenceTokens :=
    .binary ⟨word .minus "-", rfl⟩ (.name ⟨word .identifier "a", rfl⟩) (.bare rfl)
      (.binary ⟨word .minus "-", rfl⟩ (.name ⟨word .identifier "b", rfl⟩) (.bare rfl)
        (.name ⟨word .identifier "c", rfl⟩) (.bare rfl))
      (.inParens rfl ⟨word .leftParen "(", rfl⟩ ⟨word .rightParen ")", rfl⟩)
  obtain ⟨-, hstatements, -⟩ := hread nestedDifference nestedDifferenceTokens
    (word .semicolon ";") (word .endOfText "") hwritten rfl rfl (by decide +kernel)
  have hlow : nestedDifference.explicit.height ≤ 8 := by decide
  obtain ⟨-, -, -, hruns⟩ := hagree _ _ _ _ rows_parenthesized
  obtain ⟨hshallow, hruns⟩ := hruns "a.lox"
  have hagrees := hruns (hshallow (by decide)) {}
  have hout : (Runner.sample.run {} rows).out = "false\n" := by decide +kernel
  have hfailed : (Runner.sample.run {} rows).reporter.hadRuntimeError = true := by decide +kernel
  refine ⟨hwritten.composed, hwritten, hstatements,
    hevaluated _ _ _ (Expr.evaluate_ne_tooDeep hlow), ?_, ?_⟩
  · exact hagrees.out.trans hout
  · exact (congrArg Reporter.hadRuntimeError hagrees.reporter).trans hfailed

end MiniLox
