import MiniLox.Proofs.Report.Record
import MiniLox.Runner

/-!
What a run leaves behind. The mistakes of its text are added to the record,
the flags are set anew and the source is put away, whichever way the run ends.
-/

namespace MiniLox

namespace Runner

variable (s : Runner) (r : Reporter) (source : String)

/-- Statements are not run if one of them cannot be shown. -/
theorem runStatements_eq (statements : List Stmt) :
    (∃ shown, s.runStatements r statements =
        { outcome := .error .tooDeep, out := treeDump shown, reporter := r }) ∨
      ∃ shown, s.runStatements r statements =
        { conclude r (s.machine.run statements) with
          out := treeDump shown ++ (conclude r (s.machine.run statements)).out } := by
  simp only [runStatements]
  generalize (if s.showTrees = true then statements.takeWhile (Stmt.isShowable s.limits.display)
    else []) = shown
  split
  · exact .inl ⟨shown, rfl⟩
  · exact .inr ⟨shown, rfl⟩

/-- The mistakes that are found in a text before it runs. -/
def mistakes (s : Runner) (source : String) : List Report :=
  match Token.scan source with
  | .error e => [{ line := e.line, message := e.message }]
  | .ok tokens => (s.program tokens).errors.map Grammar.SyntaxError.report

theorem mistakes_of_scan_ok {source : String} {tokens : List Token}
    (hscan : Token.scan source = .ok tokens) :
    s.mistakes source = (s.program tokens).errors.map Grammar.SyntaxError.report := by
  rw [mistakes, hscan]

theorem exists_conclude_reporter (execution : Execution) :
    ∃ failed : Bool, (conclude r execution).reporter = { r with hadRuntimeError := failed } := by
  unfold conclude
  cases execution.failure with
  | none => exact ⟨r.hadRuntimeError, rfl⟩
  | some failure =>
      cases failure with
      | error e => exact ⟨true, rfl⟩
      | unknownUnary | unknownBinary | notExpression | tooDeep => exact ⟨r.hadRuntimeError, rfl⟩

theorem exists_runStatements_reporter (statements : List Stmt) :
    ∃ failed : Bool,
      (s.runStatements r statements).reporter = { r with hadRuntimeError := failed } := by
  rcases s.runStatements_eq r statements with ⟨shown, h⟩ | ⟨shown, h⟩
  · rw [h]
    exact ⟨r.hadRuntimeError, rfl⟩
  · rw [h]
    exact exists_conclude_reporter r _

theorem exists_runTokens_reporter (tokens : List Token) :
    ∃ failed : Bool, (s.runTokens r tokens).reporter =
      { (r.reportAll ((s.program tokens).errors.map
          Grammar.SyntaxError.report)).reporter with hadRuntimeError := failed } := by
  simp only [runTokens]
  split
  · exact ⟨_, rfl⟩
  · exact exists_runStatements_reporter s _ _

/-- The reporter after a run is the one before it, with the mistakes of the
text added to its record, flags for this run alone and no source. -/
theorem exists_run_reporter :
    ∃ failed : Bool, (s.run r source).reporter =
      { r with
        hadError := !(s.mistakes source).isEmpty
        hadRuntimeError := failed
        reported := r.reported ++ s.mistakes source
        source := [] } := by
  unfold run mistakes
  cases hscan : Token.scan source with
  | error e => exact ⟨false, rfl⟩
  | ok tokens =>
      obtain ⟨failed, hreporter⟩ := s.exists_runTokens_reporter (r.reset.register source) tokens
      refine ⟨failed, ?_⟩
      simp only [hreporter, Reporter.reportAll_reporter]
      rfl

/-- A runner for a file that shows nothing. -/
def sample : Runner where
  path := "a.lox"
  limits := .ample

end Runner

end MiniLox
