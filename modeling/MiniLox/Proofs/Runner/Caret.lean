import MiniLox.Proofs.Evaluation.Blame
import MiniLox.Proofs.Report.Pointing
import MiniLox.Proofs.Runner.Course

/-!
A run that fails. The flag for it is only set when a failure of the program is
thrown, so a run after which it is set has scanned its text and run the
statements up to an error. The token of that error is one of the text, no
string, and the source at hand is the text, so the token is underlined where
it stands.
-/

namespace MiniLox

open Grammar hiding Failure
open Text

/-! ### What the flag shows -/

namespace Runner

variable {s : Runner} {r : Reporter} {source : String}

theorem conclude_of_failed {execution : Execution} (hr : r.hadRuntimeError = false)
    (h : (conclude r execution).reporter.hadRuntimeError = true) :
    ∃ e : RuntimeError, execution.failure = some (.error e) ∧
      (conclude r execution).err = (r.throw e.diagnostic).err := by
  unfold conclude at h ⊢
  cases hfailure : execution.failure with
  | none =>
      rw [hfailure] at h
      exact absurd (hr.symm.trans h) Bool.false_ne_true
  | some failure =>
      cases failure with
      | error e => exact ⟨e, rfl, rfl⟩
      | unknownUnary | unknownBinary | notExpression | tooDeep =>
          rw [hfailure] at h
          exact absurd (hr.symm.trans h) Bool.false_ne_true

theorem runStatements_of_failed {statements : List Stmt} (hr : r.hadRuntimeError = false)
    (h : (s.runStatements r statements).reporter.hadRuntimeError = true) :
    ∃ e : RuntimeError, (s.machine.run statements).failure = some (.error e) ∧
      (s.runStatements r statements).err = (r.throw e.diagnostic).err := by
  rcases s.runStatements_eq r statements with ⟨shown, hrun⟩ | ⟨shown, hrun⟩
  · rw [hrun] at h
    exact absurd (hr.symm.trans h) Bool.false_ne_true
  · rw [hrun] at h ⊢
    exact conclude_of_failed hr h

theorem runTokens_of_failed {tokens : List Token} (hr : r.hadRuntimeError = false)
    (h : (s.runTokens r tokens).reporter.hadRuntimeError = true) :
    let noted := r.reportAll ((s.program tokens).errors.map SyntaxError.report)
    ∃ e : RuntimeError,
      (s.machine.run (s.program tokens).statements).failure = some (.error e) ∧
        (s.runTokens r tokens).err = noted.err ++ (noted.reporter.throw e.diagnostic).err := by
  intro noted
  have hnoted : noted.reporter.hadRuntimeError = false := by
    rw [Reporter.reportAll_reporter]
    exact hr
  simp only [runTokens] at h ⊢
  split at h
  · exact absurd (hnoted.symm.trans h) Bool.false_ne_true
  · next hdeep =>
      obtain ⟨e, hfailure, herr⟩ := runStatements_of_failed hnoted h
      refine ⟨e, hfailure, ?_⟩
      rw [if_neg hdeep, herr]

/-- What is written by a run that fails are the mistakes of the text and then
the error. -/
theorem run_of_failed (h : (s.run r source).reporter.hadRuntimeError = true) :
    ∃ (tokens : List Token) (e : RuntimeError), Token.scan source = .ok tokens ∧
      (s.machine.run (s.program tokens).statements).failure = some (.error e) ∧
        (s.run r source).err =
          ((r.reset.register source).reportAll (s.mistakes source)).err ++
            ((r.register source).throw e.diagnostic).err := by
  unfold run mistakes at *
  cases hscan : Token.scan source with
  | error e =>
      rw [hscan] at h
      contradiction
  | ok tokens =>
      rw [hscan] at h
      obtain ⟨e, hfailure, herr⟩ := runTokens_of_failed rfl h
      refine ⟨tokens, e, rfl, hfailure, ?_⟩
      simp only [herr, Reporter.reportAll_reporter]
      rfl

/-! ### Where the caret is -/

/-- A run that fails shows the token that is to blame: it is a token of the
text, it is underlined in its own line at its own place, and there it is met
without a search. -/
theorem caret_points_at_token (hcolor : r.color = false)
    (h : (s.run r source).reporter.hadRuntimeError = true) :
    ∃ (tokens : List Token) (e : RuntimeError) (above left right below : List Char),
      let line := left ++ e.token.lexeme.toList ++ right
      Token.scan source = .ok tokens ∧
        (s.machine.run (s.program tokens).statements).failure = some (.error e) ∧
        e.token ∈ tokens ∧
        e.token.CutFrom source.toList (above ++ left) ∧
        source.toList = above ++ line ++ below ∧
        e.token.line = ((above.count '\n' + 1 : Nat) : Int) ∧
        (lines source.toList)[(e.token.line - 1).toNat]? = some line ∧
        e.token.column = (left.length : Int) ∧
        e.token.lexeme ≠ "" ∧
        Reporter.startIn? e.token line = some e.token.column ∧
        e.token.lexeme.toList.isPrefixOf (after line e.token.column) = true ∧
        (s.run r source).err =
          String.join ((s.mistakes source).map (Report.notice r.path)) ++
            s!"{r.path}:{e.token.line}: error: {e.message.text}\n" ++
              underlined line left.length e.token.lexeme.length ++ "\n" := by
  obtain ⟨tokens, e, hscan, hfailure, herr⟩ := run_of_failed h
  obtain ⟨hmem, hkind⟩ := Machine.token_of_run_error hfailure
  have hend : e.token.kind ≠ .endOfText := by
    intro hk
    rw [hk] at hkind
    contradiction
  -- A string is the only token that can reach over the end of a line.
  have hstring : e.token.kind ≠ .string := by
    intro hk
    rw [hk] at hkind
    contradiction
  obtain ⟨before, hcut⟩ := Token.exists_cutFrom hscan hmem hend
  obtain ⟨above, left, right, below, rfl, hsource, hstands⟩ := hcut.exists_standsIn hstring
  have hne : e.token.lexeme ≠ "" := by
    intro hempty
    exact hcut.spells.ne_nil (by rw [hempty]; rfl)
  have hline : (r.register source).lineOf? e.token =
      some (left ++ e.token.lexeme.toList ++ right) :=
    hstands.lineOf?_eq (by rw [← hsource]; rfl)
  refine ⟨tokens, e, above, left, right, below, hscan, hfailure, hmem, hcut, hsource,
    hstands.line, ?_, hstands.column, hne, ?_, hstands.met_at_column.1, ?_⟩
  · have hpos : 0 < e.token.line := by
      rw [hstands.line]
      omega
    rw [Reporter.lineOf?, if_pos hpos] at hline
    exact hline
  · rw [hstands.startIn?_eq, hstands.column]
  · have hpointer : ((r.register source).pointer e.token).text = _ :=
      hstands.text_pointer hne (by rw [← hsource]; rfl)
    have hnotices := (r.reset.register source).reportAll_err hcolor (s.mistakes source)
    have hthrown := (r.register source).throw_err hcolor e
    rw [herr, hnotices, hthrown, hpointer]
    simp only [String.append_assoc]
    rfl

/-- A difference that is taken from one and from another, on the second line
of a text that has minus signs before. -/
def differences : String := "print 1 - 2;\n\tprint 3 - 4 - \"x\";"

def differencesErr : String :=
  "a.lox:2: error: operands of '-' must be numbers, got number and string\n" ++
    "  \tprint 3 - 4 - \"x\";\n" ++
    "               ^\n"

theorem caret_points_at_token_differences :
    (run sample { path := "a.lox" } differences).reporter.hadRuntimeError = true ∧
      ∃ (e : RuntimeError) (above left right : List Char),
        e.token.CutFrom differences.toList (above ++ left) ∧
          e.token.column = (left.length : Int) ∧
            differencesErr =
              s!"a.lox:{e.token.line}: error: {e.message.text}\n" ++
                underlined (left ++ e.token.lexeme.toList ++ right) left.length
                  e.token.lexeme.length ++ "\n" := by
  have hfailed :
      (run sample { path := "a.lox" } differences).reporter.hadRuntimeError = true := by
    decide +kernel
  refine ⟨hfailed, ?_⟩
  obtain ⟨_, e, above, left, right, _, -, -, -, hcut, -, -, -, hcolumn, -, -, -, herr⟩ :=
    caret_points_at_token rfl hfailed
  have hnotices : String.join ((sample.mistakes differences).map (Report.notice "a.lox")) = "" := by
    decide +kernel
  have hwritten : (run sample { path := "a.lox" } differences).err =
      differencesErr := by
    decide +kernel
  rw [hwritten, hnotices, String.empty_append] at herr
  exact ⟨e, above, left, right, hcut, hcolumn, herr⟩

end Runner

end MiniLox
