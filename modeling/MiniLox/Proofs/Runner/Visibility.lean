import MiniLox.Proofs.Runner.Outcome

/-!
Everything that goes wrong in a run is seen. A run takes one of four ways, and
only two of them lead past a message: all statements run through without a
mistake in the text, or a tree is too deep. What a program is to blame for is
written exactly once, whether the reporter is fatal or not; a fatal one differs
in nothing but the exit after a failure.
-/

namespace MiniLox

open Grammar hiding Failure
open Text

theorem Run.settled_of_ok {ran : Run} {through : Bool} (h : ran.outcome = .ok through) :
    ran.settled = ran := by
  rw [settled, h]

namespace Runner

variable {s : Runner} {r : Reporter} {source : String} {tokens : List Token} {e : RuntimeError}

/-- No tree of a text is too deep. A text that cannot be scanned has none. -/
def WithinLimits (s : Runner) (source : String) : Prop :=
  ∀ tokens, Token.scan source = .ok tokens → s.Shallow tokens

/-- The ways that a run of a text can take. -/
inductive Course (s : Runner) (source : String) : Prop where
  | unscanned {e : ScanError} (hscan : Token.scan source = .error e)
  | deep {tokens : List Token} (hscan : Token.scan source = .ok tokens)
      (hdeep : ¬s.Shallow tokens)
  | through {tokens : List Token} (hscan : Token.scan source = .ok tokens)
      (hs : s.Shallow tokens)
      (hran : (s.machine.run (s.program tokens).statements).failure = none)
  | failing {tokens : List Token} {e : RuntimeError} (hscan : Token.scan source = .ok tokens)
      (hs : s.Shallow tokens)
      (hran : (s.machine.run (s.program tokens).statements).failure =
        some (.error e))

/-- A run fails because of its program or of the depth of a tree. There are no
operators that are unknown, and no statements in the place of expressions. -/
theorem course (s : Runner) (source : String) : s.Course source := by
  cases hscan : Token.scan source with
  | error e => exact .unscanned hscan
  | ok tokens =>
      by_cases hs : s.Shallow tokens
      · cases hran : (s.machine.run (s.program tokens).statements).failure with
        | none => exact .through hscan hs hran
        | some failure =>
            rcases Machine.run_failure_of_tokens hran with rfl | ⟨e, rfl, -, -⟩
            · exact absurd hran hs.evaluated
            · exact .failing hscan hs hran
      · exact .deep hscan hs

theorem withinLimits_iff (hscan : Token.scan source = .ok tokens) :
    s.WithinLimits source ↔ s.Shallow tokens := by
  constructor
  · exact fun h => h tokens hscan
  · intro hs tokens' hscan'
    obtain rfl := Except.ok.inj (hscan.symm.trans hscan')
    exact hs

theorem withinLimits_of_scan_error {e : ScanError} (hscan : Token.scan source = .error e) :
    s.WithinLimits source := by
  intro tokens hscan'
  rw [hscan] at hscan'
  contradiction

/-- The token that a program failed at stands in its text, so it can be
underlined, if the text is not longer than a row can be. -/
theorem throwAny_of_run_error (hscan : Token.scan source = .ok tokens)
    (hran : (s.machine.run (s.program tokens).statements).failure =
      some (.error e))
    (hlength : source.length ≤ Reporter.rowLimit) :
    (r.register source).throwAny e.diagnostic = (r.register source).throw e.diagnostic := by
  obtain ⟨hmem, hkind⟩ := Machine.token_of_run_error hran
  have hend : e.token.kind ≠ .endOfText := by
    intro hk
    rw [hk] at hkind
    contradiction
  -- A string can go on over the end of a line, and then it stands in no line.
  have hstring : e.token.kind ≠ .string := by
    intro hk
    rw [hk] at hkind
    contradiction
  obtain ⟨before, hcut⟩ := Token.exists_cutFrom hscan hmem hend
  obtain ⟨above, left, right, below, rfl, hsource, hstands⟩ := hcut.exists_standsIn hstring
  have hne : e.token.lexeme ≠ "" := by
    intro hempty
    exact hcut.spells.ne_nil (by rw [hempty]; rfl)
  have hleft : left.length ≤ source.length := by
    rw [← String.length_toList, hsource]
    simp only [List.length_append]
    omega
  exact hstands.throwAny_eq_throw rfl hne (by rw [← hsource]; rfl) (hleft.trans hlength)

/-! ### What is raised -/

/-- A run raises that a tree is too deep, or it exits after a failure if its
reporter is fatal. It raises nothing else. -/
theorem outcome_eq_error_iff {raised : Raised} :
    (s.run r source).outcome = .error raised ↔
      raised = .tooDeep ∧ ¬s.WithinLimits source ∨
        raised = .exit (some 1) ∧ s.WithinLimits source ∧ r.fatal = true ∧
          (s.run r source).reporter.hadRuntimeError = true := by
  rw [eq_comm (a := raised), eq_comm (a := raised)]
  cases s.course source with
  | unscanned hscan =>
      rw [run_of_scan_error hscan]
      simp [withinLimits_of_scan_error hscan, reporterAfter]
  | deep hscan hdeep =>
      rw [run_of_not_shallow hscan hdeep, withinLimits_iff hscan]
      simp [hdeep]
  | through hscan hs hran =>
      rw [run_of_success hscan hs hran, withinLimits_iff hscan]
      simp [hs, reporterAfter]
  | failing hscan hs hran =>
      -- The one place where it matters whether the reporter is fatal.
      rw [run_of_failure hscan hs hran, withinLimits_iff hscan]
      cases hfatal : r.fatal <;> simp [hs, reporterAfter]

theorem fatal_run : (s.run r source).reporter.fatal = r.fatal := by
  obtain ⟨failed, hreporter⟩ := s.exists_run_reporter r source
  rw [hreporter]

/-- A reporter that is not fatal leaves nothing to raise, and stays as it is. -/
theorem exists_settled_eq_ok (s : Runner) (source : String) (hfatal : r.fatal = false) :
    ∃ through, (s.run r source).settled.outcome = .ok through ∧
      (s.run r source).settled.reporter.fatal = false := by
  have hran : (s.run r source).reporter.fatal = false := fatal_run.trans hfatal
  cases houtcome : (s.run r source).outcome with
  | ok through =>
      rw [Run.settled_of_ok houtcome]
      exact ⟨through, houtcome, hran⟩
  | error raised =>
      rcases outcome_eq_error_iff.mp houtcome with ⟨rfl, -⟩ | ⟨-, -, hexits, -⟩
      · refine ⟨false, ?_, ?_⟩ <;>
          simp [Run.settled, houtcome, Reporter.settle, Reporter.throw, hran]
      · rw [hfatal] at hexits
        contradiction

/-- All that a fatal reporter does in another way is to exit after a failure. -/
theorem run_of_fatal (hlimits : s.WithinLimits source) :
    let quiet := s.run { r with fatal := false } source
    s.run { r with fatal := true } source =
      { quiet with
        outcome :=
          if quiet.reporter.hadRuntimeError then .error (.exit (some 1)) else quiet.outcome
        reporter := { quiet.reporter with fatal := true } } := by
  intro quiet
  cases s.course source with
  | unscanned hscan =>
      simp only [quiet, run_of_scan_error hscan]
      rfl
  | deep hscan hdeep => exact absurd (hlimits _ hscan) hdeep
  | through hscan hs hran =>
      simp only [quiet, run_of_success hscan hs hran]
      rfl
  | failing hscan hs hran =>
      simp only [quiet, run_of_failure hscan hs hran]
      rfl

/-! ### What is written -/

/-- Nothing is written about a run exactly if no mistake is found in its text
and its program does not fail. -/
theorem err_eq_empty_iff (hlimits : s.WithinLimits source) :
    (s.run r source).err = "" ↔
      (s.run r source).reporter.reported = r.reported ∧
        (s.run r source).reporter.hadRuntimeError = false := by
  cases s.course source with
  | unscanned hscan =>
      rw [run_of_scan_error hscan]
      simp [reporterAfter, mistakes, hscan, r.notice_ne_empty]
  | deep hscan hdeep => exact absurd (hlimits _ hscan) hdeep
  | through hscan hs hran =>
      rw [run_of_success hscan hs hran]
      simp [reporterAfter, r.join_notices_eq_empty_iff]
  | failing hscan hs hran =>
      rw [run_of_failure hscan hs hran]
      simp [reporterAfter, Reporter.throw_err_ne_empty]

/-- A run says that it went through exactly if nothing is written about it. -/
theorem outcome_eq_ok_true_iff (hlimits : s.WithinLimits source) :
    (s.run r source).outcome = .ok true ↔ (s.run r source).err = "" := by
  cases s.course source with
  | unscanned hscan =>
      rw [run_of_scan_error hscan]
      simp [r.notice_ne_empty]
  | deep hscan hdeep => exact absurd (hlimits _ hscan) hdeep
  | through hscan hs hran =>
      rw [run_of_success hscan hs hran]
      simp [r.join_notices_eq_empty_iff]
  | failing hscan hs hran =>
      rw [run_of_failure hscan hs hran]
      cases hfatal : r.fatal <;> simp [Reporter.throw_err_ne_empty]

/-- What is written about the mistakes of a program, a notice for each. -/
def notices (r : Reporter) (program : Program) : String :=
  String.join (program.errors.map fun e => r.notice e.report)

theorem join_mistakes_eq_notices (hscan : Token.scan source = .ok tokens) :
    String.join ((s.mistakes source).map r.notice) = notices r (s.program tokens) := by
  rw [s.mistakes_of_scan_ok hscan, notices, List.map_map]
  rfl

/-- The statements of a text run in their order up to the first that fails,
and its failure is written behind the notices. -/
theorem exists_run_parts (hscan : Token.scan source = .ok tokens) (hs : s.Shallow tokens) :
    ∃ done left, (s.program tokens).statements = done ++ left ∧
      (s.machine.run done).failure = none ∧
      (s.run r source).out = s.shown tokens ++ (s.machine.run done).output ∧
      (left = [] ∧ (s.run r source).reporter.hadRuntimeError = false ∧
          (s.run r source).err = notices r (s.program tokens) ∨
        ∃ failing later e, left = failing :: later ∧
          (s.machine.run done).machine.evaluate failing.expr = .error (.error e) ∧
          (s.machine.run (s.program tokens).statements).failure =
            some (.error e) ∧
          (s.run r source).reporter.hadRuntimeError = true ∧
          (s.run r source).err =
            notices r (s.program tokens) ++
              ((r.register source).throw e.diagnostic).err) := by
  obtain ⟨done, left, hsplit, hdone, hends⟩ :=
    s.machine.exists_run_eq (s.program tokens).statements
  refine ⟨done, left, hsplit, hdone, ?_⟩
  rcases hends with rfl | ⟨failing, later, failure, hleft, hvalue, hran⟩
  · rw [List.append_nil] at hsplit
    rw [← hsplit] at hdone ⊢
    rw [run_of_success hscan hs hdone, join_mistakes_eq_notices hscan]
    exact ⟨rfl, .inl ⟨rfl, rfl, rfl⟩⟩
  · have hfailure : (s.machine.run (s.program tokens).statements).failure =
        some failure := by
      rw [hran]
    rcases Machine.run_failure_of_tokens hfailure with rfl | ⟨e, rfl, -, -⟩
    · exact absurd hfailure hs.evaluated
    · rw [run_of_failure hscan hs hfailure, hran, join_mistakes_eq_notices hscan]
      exact ⟨rfl, .inr ⟨failing, later, e, hleft, hvalue, rfl, rfl, rfl⟩⟩

/-! ### Nothing is swallowed -/

/-- A failure of a program can be thrown: its message can be filled in whatever
its token is, and its token can be underlined unless the text is longer than a
row can be. -/
structure Throwable (r : Reporter) (source : String) (e : RuntimeError) : Prop where
  filled : ∃ m, Template.fill r.color e.fault.template [e.token.lexeme] = .ok m ∧
    m.text = e.message.text ∧ m.render r.color = e.message.render r.color
  drawn : source.length ≤ Reporter.rowLimit →
    (r.register source).throwAny e.diagnostic = (r.register source).throw e.diagnostic

/-- Everything that goes wrong in a run of a text is seen in what the run
leaves. -/
structure Visible (s : Runner) (r : Reporter) (source : String) (ran : Run) : Prop where
  /-- The run says that it went through exactly if there is nothing to see. -/
  through : ran.outcome = .ok true ↔
    ran.err = "" ∧ ran.reporter.reported = r.reported ∧ ran.reporter.hadRuntimeError = false
  /-- What is seen in the reporter is written, and the other way round. -/
  silent : ran.err = "" ↔
    ran.reporter.reported = r.reported ∧ ran.reporter.hadRuntimeError = false
  /-- A scan error is reported once and that is all. -/
  refused : ∀ e, Token.scan source = .error e →
    ran.outcome = .ok false ∧ ran.out = "" ∧
      ran.err = r.notice { line := e.line, message := e.message } ∧
      ran.reporter.reported = r.reported ++ [{ line := e.line, message := e.message }] ∧
      ran.reporter.hadRuntimeError = false
  /-- Every mistake is reported once. -/
  reported : ∀ tokens, Token.scan source = .ok tokens →
    ran.reporter.reported =
      r.reported ++ (s.program tokens).errors.map SyntaxError.report
  /-- The statements that could be parsed run in their order, up to the first
  that fails. Its failure is thrown once. -/
  parsed : ∀ tokens, Token.scan source = .ok tokens →
    ∃ done left, (s.program tokens).statements = done ++ left ∧
      (s.machine.run done).failure = none ∧
      ran.out = s.shown tokens ++ (s.machine.run done).output ∧
      (left = [] ∧ ran.reporter.hadRuntimeError = false ∧
          ran.err = notices r (s.program tokens) ∨
        ∃ failing later e, left = failing :: later ∧
          (s.machine.run done).machine.evaluate failing.expr = .error (.error e) ∧
          ran.reporter.hadRuntimeError = true ∧
          ran.err =
            notices r (s.program tokens) ++
              ((r.register source).throw e.diagnostic).err ∧
          Throwable r source e)

theorem visible (hlimits : s.WithinLimits source) : Visible s r source (s.run r source) where
  through := by
    rw [outcome_eq_ok_true_iff hlimits, err_eq_empty_iff hlimits, and_self]
  silent := err_eq_empty_iff hlimits
  refused e hscan := by
    rw [run_of_scan_error hscan]
    simp [reporterAfter, mistakes, hscan]
  reported tokens hscan := by
    obtain ⟨failed, hreporter⟩ := s.exists_run_reporter r source
    rw [hreporter, mistakes, hscan]
  parsed tokens hscan := by
    obtain ⟨done, left, hsplit, hdone, hout, hends⟩ :=
      s.exists_run_parts (r := r) hscan (hlimits tokens hscan)
    refine ⟨done, left, hsplit, hdone, hout, ?_⟩
    rcases hends with hends | ⟨failing, later, e, hleft, hvalue, hran, hfailed, herr⟩
    · exact .inl hends
    · exact .inr ⟨failing, later, e, hleft, hvalue, hfailed, herr,
        e.exists_fill r.color, throwAny_of_run_error hscan hran⟩

/-- Nothing escapes from a run but that a tree is too deep, and apart from that
every failure is seen. A fatal reporter changes nothing but that a run with a
failure of its program then exits. -/
theorem no_failure_is_swallowed (s : Runner) (r : Reporter) (source : String) :
    let quiet := s.run { r with fatal := false } source
    let strict := s.run { r with fatal := true } source
    (∀ raised, quiet.outcome = .error raised ↔ raised = .tooDeep ∧ ¬s.WithinLimits source) ∧
      (∀ raised, strict.outcome = .error raised ↔
        raised = .tooDeep ∧ ¬s.WithinLimits source ∨
          raised = .exit (some 1) ∧ s.WithinLimits source ∧
            quiet.reporter.hadRuntimeError = true) ∧
      (s.WithinLimits source →
        Visible s { r with fatal := false } source quiet ∧
          strict =
            { quiet with
              outcome :=
                if quiet.reporter.hadRuntimeError then .error (.exit (some 1))
                else quiet.outcome
              reporter := { quiet.reporter with fatal := true } }) := by
  intro quiet strict
  refine ⟨fun raised => ?_, fun raised => ?_,
    fun hlimits => ⟨visible hlimits, run_of_fatal hlimits⟩⟩
  · rw [outcome_eq_error_iff]
    simp
  · rw [outcome_eq_error_iff]
    by_cases hlimits : s.WithinLimits source
    · have hflag : (s.run { r with fatal := true } source).reporter.hadRuntimeError =
          quiet.reporter.hadRuntimeError :=
        congrArg (fun ran => ran.reporter.hadRuntimeError) (run_of_fatal hlimits)
      rw [hflag]
      simp [hlimits]
    · simp [hlimits]

/-- A text with a mistake on its second line and a sum that fails on its
third. -/
def scraps : String := "print \"a\";\nprint;\n\"b\" + nil;\nprint \"c\";"

theorem no_failure_is_swallowed_scraps :
    let strict := run sample { path := "a.lox" } scraps
    WithinLimits sample scraps ∧
      strict.outcome = .error (.exit (some 1)) ∧
      strict.out = "a\n" ∧
      ∃ e : RuntimeError, Throwable { path := "a.lox", fatal := false } scraps e ∧
        strict.err =
          "a.lox:2: error: at ';': Expect expression.\n" ++
            ((Reporter.register { path := "a.lox" } scraps).throw e.diagnostic).err := by
  let quiet := run sample { path := "a.lox", fatal := false } scraps
  obtain ⟨hraises, -, hvisible⟩ :=
    no_failure_is_swallowed sample { path := "a.lox" } scraps
  -- A run that ends has met no tree that is too deep.
  have hlimits : WithinLimits sample scraps := by
    by_contra hdeep
    have hraised : quiet.outcome = .error .tooDeep := (hraises .tooDeep).mpr ⟨rfl, hdeep⟩
    have hended : quiet.outcome.toOption = some false := by decide +kernel
    rw [hraised] at hended
    contradiction
  have hfailed : quiet.reporter.hadRuntimeError = true := by decide +kernel
  have hout : quiet.out = "a\n" := by decide +kernel
  have hnotices : String.join ((sample.mistakes scraps).map (Reporter.notice { path := "a.lox" })) =
      "a.lox:2: error: at ';': Expect expression.\n" := by
    decide +kernel
  obtain ⟨hquiet, hstrict⟩ := hvisible hlimits
  rw [hstrict]
  refine ⟨hlimits, if_pos hfailed, hout, ?_⟩
  cases hscan : Token.scan scraps with
  | error e =>
      have hclear := (hquiet.refused e hscan).2.2.2.2
      exact absurd (hclear.symm.trans hfailed) Bool.false_ne_true
  | ok tokens =>
      obtain ⟨_, _, -, -, -, ⟨-, hclear, -⟩ | ⟨_, _, e, -, -, -, herr, hthrowable⟩⟩ :=
        hquiet.parsed tokens hscan
      · exact absurd (hclear.symm.trans hfailed) Bool.false_ne_true
      · refine ⟨e, hthrowable, ?_⟩
        rw [← hnotices, join_mistakes_eq_notices hscan]
        exact herr

end Runner

end MiniLox
