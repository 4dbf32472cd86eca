import Mathlib.Data.List.TakeWhile
import MiniLox.Proofs.Evaluation.Order
import MiniLox.Proofs.Report.Pointing
import MiniLox.Proofs.Report.Wording
import MiniLox.Proofs.Runner.Course

/-!
How a run ends. A text that cannot be scanned is reported and that is all. A
text with tokens has its mistakes reported and its statements run, and either
they all run through or the first that fails is thrown. Only a tree that is too
deep to be read, shown or evaluated can keep a run from ending in one of these
ways. So a run raises nothing unless its reporter is fatal, and it says that it
went through exactly if nothing was written about it.
-/

namespace MiniLox

open Grammar hiding Failure
open Text

/-! ### What is written -/

theorem Text.Message.render_ne_empty {color : Bool} {s : Span} {m : Message} (hs : s ∈ m)
    (hrender : s.render color ≠ "") : m.render color ≠ "" := by
  induction m with
  | nil => contradiction
  | cons first m ih =>
      rw [Message.render_cons]
      intro hempty
      obtain ⟨hfirst, hrest⟩ := String.append_eq_empty_iff.mp hempty
      rcases List.mem_cons.mp hs with rfl | hs
      · exact hrender hfirst
      · exact ih hs hrest

namespace Reporter

variable (r : Reporter)

/-- What is written about a mistake. -/
def notice (m : Report) : String := (r.report m.line m.message).err

theorem render_errorMark_ne_empty (color : Bool) : errorMark.render color ≠ "" := by
  cases color <;> decide

theorem notice_ne_empty (m : Report) : r.notice m ≠ "" :=
  Message.render_ne_empty (s := errorMark) (by simp) (render_errorMark_ne_empty r.color)

theorem throw_err_ne_empty (d : Diagnostic) : (r.throw d).err ≠ "" :=
  Message.render_ne_empty (s := errorMark) (by simp [written]) (render_errorMark_ne_empty r.color)

theorem reportAll_err_eq_join (ms : List Report) :
    (r.reportAll ms).err = String.join (ms.map r.notice) := by
  induction ms generalizing r with
  | nil => rfl
  | cons m ms ih =>
      have hrest : ((r.report m.line m.message).reporter.reportAll ms).err =
          String.join (ms.map r.notice) :=
        ih (r.report m.line m.message).reporter
      rw [reportAll, List.map_cons, String.join_cons, ← hrest]
      rfl

theorem join_notices_eq_empty_iff {ms : List Report} :
    String.join (ms.map r.notice) = "" ↔ ms = [] := by
  cases ms with
  | nil => simp
  | cons m ms =>
      rw [List.map_cons, String.join_cons]
      simp [r.notice_ne_empty m]

end Reporter

namespace Runner

variable {s : Runner} {r : Reporter} {source : String} {tokens : List Token}
  {statements : List Stmt} {execution : Execution} {e : RuntimeError}

/-! ### The ways to end -/

/-- What is shown of a text before it runs, if that is asked for: its tokens and
its statements. -/
def shown (s : Runner) (tokens : List Token) : String :=
  (if s.showTokens then tokenDump tokens else "") ++
    if s.showTrees then treeDump (s.program tokens).statements else ""

/-- No tree of a text is too deep: not to be read, not to be shown if that is
asked for, and not to be evaluated. -/
structure Shallow (s : Runner) (tokens : List Token) : Prop where
  read : (s.program tokens).tooDeep = false
  showable : s.showTrees = true →
    ∀ st ∈ (s.program tokens).statements, st.isShowable s.limits.display = true
  evaluated : (s.machine.run (s.program tokens).statements).failure ≠ some .tooDeep

/-- The reporter after a run of a text, which has failed or not. -/
def reporterAfter (s : Runner) (r : Reporter) (source : String) (failed : Bool) : Reporter :=
  { r with
    hadError := !(s.mistakes source).isEmpty
    hadRuntimeError := failed
    reported := r.reported ++ s.mistakes source
    source := [] }

theorem conclude_of_none (h : execution.failure = none) :
    conclude r execution =
      { outcome := .ok !(r.hadError || r.hadRuntimeError)
        out := execution.output
        reporter := r } := by
  rw [conclude, h]

theorem conclude_of_error (h : execution.failure = some (.error e)) :
    conclude r execution =
      { outcome := if r.fatal then .error (.exit (some 1)) else .ok false
        out := execution.output
        err := (r.throw e.diagnostic).err
        reporter := { r with hadRuntimeError := true } } := by
  rw [conclude, h]
  cases hfatal : r.fatal <;> simp [Reporter.throw, hfatal]

theorem conclude_of_tooDeep (h : execution.failure = some .tooDeep) :
    conclude r execution =
      { outcome := .error .tooDeep, out := execution.output, reporter := r } := by
  rw [conclude, h]
  rfl

theorem runStatements_of_showable
    (h : s.showTrees = true → ∀ st ∈ statements, st.isShowable s.limits.display = true) :
    s.runStatements r statements =
      { conclude r (s.machine.run statements) with
        out := (if s.showTrees then treeDump statements else "") ++
          (conclude r (s.machine.run statements)).out } := by
  cases htrees : s.showTrees with
  | false => simp [runStatements, htrees, treeDump]
  | true =>
      have hall : statements.takeWhile (Stmt.isShowable s.limits.display) = statements :=
        List.takeWhile_eq_self_iff.mpr (h htrees)
      simp [runStatements, htrees, hall]

theorem runStatements_of_not_showable (htrees : s.showTrees = true)
    (h : ¬∀ st ∈ statements, st.isShowable s.limits.display = true) :
    (s.runStatements r statements).outcome = .error .tooDeep ∧
      (s.runStatements r statements).reporter = r := by
  have hne : statements.takeWhile (Stmt.isShowable s.limits.display) ≠ statements :=
    mt List.takeWhile_eq_self_iff.mp h
  have hshown := List.takeWhile_prefix (p := Stmt.isShowable s.limits.display) (l := statements)
  have hlt : (statements.takeWhile (Stmt.isShowable s.limits.display)).length <
      statements.length :=
    Nat.lt_of_le_of_ne hshown.length_le fun heq => hne (hshown.eq_of_length heq)
  simp [runStatements, htrees, hlt]

theorem run_of_scan_error {e : ScanError} (hscan : Token.scan source = .error e) :
    s.run r source =
      { outcome := .ok false
        err := r.notice { line := e.line, message := e.message }
        reporter := s.reporterAfter r source false } := by
  have hmistakes : s.mistakes source = [{ line := e.line, message := e.message }] := by
    rw [mistakes, hscan]
  rw [run, hscan, reporterAfter, hmistakes]
  rfl

theorem run_of_scan_ok (hscan : Token.scan source = .ok tokens)
    (hread : (s.program tokens).tooDeep = false)
    (hshowable : s.showTrees = true →
      ∀ st ∈ (s.program tokens).statements, st.isShowable s.limits.display = true) :
    let ready :=
      { r.register source with
        hadError := !(s.mistakes source).isEmpty
        hadRuntimeError := false
        reported := r.reported ++ s.mistakes source }
    let ended := conclude ready (s.machine.run (s.program tokens).statements)
    s.run r source =
      { outcome := ended.outcome
        out := s.shown tokens ++ ended.out
        err := String.join ((s.mistakes source).map r.notice) ++ ended.err
        reporter := ended.reporter.forget } := by
  intro ready ended
  have hmistakes := s.mistakes_of_scan_ok hscan
  have hnoted : ((r.reset.register source).reportAll (s.mistakes source)).reporter = ready :=
    Reporter.reportAll_reporter _ _
  have herr : ((r.reset.register source).reportAll (s.mistakes source)).err =
      String.join ((s.mistakes source).map r.notice) :=
    Reporter.reportAll_err_eq_join _ _
  simp only [run, hscan, runTokens, hread, ← hmistakes, hnoted, herr,
    runStatements_of_showable hshowable, shown, String.append_assoc]
  rfl

/-- A text without scan error all of whose statements run through. -/
theorem run_of_success (hscan : Token.scan source = .ok tokens) (hs : s.Shallow tokens)
    (hran : (s.machine.run (s.program tokens).statements).failure = none) :
    s.run r source =
      { outcome := .ok (s.mistakes source).isEmpty
        out := s.shown tokens ++
          (s.machine.run (s.program tokens).statements).output
        err := String.join ((s.mistakes source).map r.notice)
        reporter := s.reporterAfter r source false } := by
  rw [run_of_scan_ok hscan hs.read hs.showable, conclude_of_none hran]
  simp [reporterAfter, Reporter.register, Reporter.forget]

/-- A text without scan error one of whose statements fails. -/
theorem run_of_failure (hscan : Token.scan source = .ok tokens) (hs : s.Shallow tokens)
    (hran : (s.machine.run (s.program tokens).statements).failure =
      some (.error e)) :
    s.run r source =
      { outcome := if r.fatal then .error (.exit (some 1)) else .ok false
        out := s.shown tokens ++
          (s.machine.run (s.program tokens).statements).output
        err := String.join ((s.mistakes source).map r.notice) ++
          ((r.register source).throw e.diagnostic).err
        reporter := s.reporterAfter r source true } := by
  rw [run_of_scan_ok hscan hs.read hs.showable, conclude_of_error hran]
  rfl

/-- Where a tree is too deep that is what the run raises. -/
theorem run_of_not_shallow (hscan : Token.scan source = .ok tokens) (hs : ¬s.Shallow tokens) :
    (s.run r source).outcome = .error .tooDeep := by
  by_cases hread : (s.program tokens).tooDeep = true
  · simp [run, hscan, runTokens, hread]
  by_cases hshowable : s.showTrees = true →
      ∀ st ∈ (s.program tokens).statements, st.isShowable s.limits.display = true
  · have hfailure : (s.machine.run (s.program tokens).statements).failure =
        some .tooDeep :=
      Classical.byContradiction fun h => hs ⟨by simpa using hread, hshowable, h⟩
    rw [run_of_scan_ok hscan (by simpa using hread) hshowable, conclude_of_tooDeep hfailure]
  · obtain ⟨htrees, hall⟩ := Classical.not_imp.mp hshowable
    simp only [run, hscan, runTokens, hread]
    exact (runStatements_of_not_showable htrees hall).1

end Runner

end MiniLox
