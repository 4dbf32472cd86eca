import MiniLox.Proofs.Runner.Course

/-!
Runs one after another. A run finds the reporter as a new one but for the
record, for the flags are cleared and the source is its own; and of the record
nothing is ever read. So a run does what it does on a new reporter, and what
ran before it shows in the record alone.
-/

namespace MiniLox

/-- The run with more reports in the record of its reporter, made before it. -/
def Run.following (run : Run) (earlier : List Report) : Run :=
  { run with reporter := run.reporter.following earlier }

namespace Runner

variable (s : Runner) (r : Reporter) (earlier : List Report) (source : String)

/-! ### What does not depend on the record -/

theorem conclude_following (execution : Execution) :
    conclude (r.following earlier) execution = (conclude r execution).following earlier := by
  unfold conclude
  cases execution.failure with
  | none => rfl
  | some failure => cases failure <;> rfl

theorem runStatements_following (statements : List Stmt) :
    s.runStatements (r.following earlier) statements =
      (s.runStatements r statements).following earlier := by
  simp only [runStatements, conclude_following]
  generalize (if s.showTrees = true then statements.takeWhile (Stmt.isShowable s.limits.display)
    else []) = shown
  split
  · rfl
  · rfl

theorem runTokens_following (tokens : List Token) :
    s.runTokens (r.following earlier) tokens = (s.runTokens r tokens).following earlier := by
  simp only [runTokens, Reporter.reportAll_following]
  split
  · rfl
  · simp only [Response.following, runStatements_following]
    rfl

/-- A run reads neither the record nor the flags of the run before it, nor a
source that is still at hand. -/
theorem run_eq_following :
    s.run r source =
      (s.run { path := r.path, fatal := r.fatal, color := r.color } source).following
        r.reported := by
  have hready : r.reset.register source =
      Reporter.following
        ({ path := r.path, fatal := r.fatal, color := r.color : Reporter }.reset.register source)
        r.reported := by
    simp [Reporter.reset, Reporter.register, Reporter.following]
  -- From here on both runs go the same way.
  unfold run
  rw [hready]
  cases Token.scan source with
  | error e =>
      simp only [Reporter.report_following]
      rfl
  | ok tokens =>
      simp only [runTokens_following]
      rfl

/-! ### Runs one after another -/

/-- The runs of texts in their order, each with the reporter that the run
before it left. -/
def runAll (s : Runner) (r : Reporter) : List String → List Run
  | [] => []
  | source :: sources =>
    let first := s.run r source
    first :: s.runAll first.reporter sources

theorem length_runAll (sources : List String) : (s.runAll r sources).length = sources.length := by
  induction sources generalizing r with
  | nil => rfl
  | cons source sources ih => rw [runAll, List.length_cons, List.length_cons, ih]

/-- Each run is the one that a new reporter would have seen, but for the
record. -/
theorem getElem?_runAll {sources : List String} {source : String} {i : Nat}
    (hi : sources[i]? = some source) :
    (s.runAll r sources)[i]? =
      some ((s.run { path := r.path, fatal := r.fatal, color := r.color } source).following
        (r.reported ++ (sources.take i).flatMap s.mistakes)) := by
  induction sources generalizing r i with
  | nil => contradiction
  | cons first sources ih =>
      cases i with
      | zero =>
          obtain rfl : first = source := Option.some.inj hi
          simp only [runAll, List.getElem?_cons_zero, List.take_zero, List.flatMap_nil,
            List.append_nil]
          rw [← run_eq_following]
      | succ i =>
          obtain ⟨failed, hreporter⟩ := s.exists_run_reporter r first
          simp only [runAll, List.getElem?_cons_succ, List.take_succ_cons, List.flatMap_cons]
          rw [ih _ hi, hreporter, List.append_assoc]

/-- A runner and its reporter as they are when a session starts, for the
console or for a file. -/
inductive Opened : Runner → Reporter → Prop where
  | console {path : String} {limits : Limits} {showTokens showTrees fatal color : Bool}
      {s : Runner} {r : Reporter}
      (h : forConsole path limits showTokens showTrees { fatal := fatal, color := color } =
        (s, r)) :
      Opened s r
  | file {path : String} {limits : Limits} {showTokens showTrees fatal color : Bool}
      {s : Runner} {r : Reporter}
      (h : forFile path limits showTokens showTrees { fatal := fatal, color := color } =
        .ok (s, r)) :
      Opened s r

variable {s r}

theorem Opened.reporter_eq (h : s.Opened r) :
    r = { path := r.path, fatal := r.fatal, color := r.color } := by
  cases h with
  | console h =>
      cases h
      rfl
  | file h =>
      unfold forFile at h
      split at h
      · contradiction
      · cases h
        rfl

/-- Whatever ran before, a run of a session ends, writes and leaves the flags
as if it were the first; it adds its own mistakes to the record; and it leaves
no source at hand. -/
theorem runs_are_independent (h : s.Opened r) (sources : List String) :
    (s.runAll r sources).length = sources.length ∧
      ∀ (i : Nat) (source : String), sources[i]? = some source →
        ∃ run, (s.runAll r sources)[i]? = some run ∧
          run.outcome = (s.run r source).outcome ∧
          run.out = (s.run r source).out ∧
          run.err = (s.run r source).err ∧
          run.reporter.hadError = (s.run r source).reporter.hadError ∧
          run.reporter.hadRuntimeError = (s.run r source).reporter.hadRuntimeError ∧
          (s.run r source).reporter.reported = s.mistakes source ∧
          run.reporter.reported = (sources.take i).flatMap s.mistakes ++ s.mistakes source ∧
          run.reporter.source = [] := by
  refine ⟨s.length_runAll r sources, fun i source hi => ?_⟩
  have hrun := s.getElem?_runAll r hi
  rw [← h.reporter_eq] at hrun
  have hnone : r.reported = [] := by rw [h.reporter_eq]
  have hreported : (s.run r source).reporter.reported = s.mistakes source := by
    obtain ⟨failed, hreporter⟩ := s.exists_run_reporter r source
    rw [hreporter, hnone]
    rfl
  refine ⟨_, hrun, rfl, rfl, rfl, rfl, rfl, hreported, ?_, rfl⟩
  simp only [Run.following, Reporter.following, hreported, hnone, List.nil_append]

/-- A text that fails, one that cannot be read to its end, and one that is
well formed. -/
def trials : List String := ["print -true;", "var x", "print nil;"]

theorem runs_are_independent_trials :
    Opened sample { path := "a.lox" } ∧
      ∃ run, (runAll sample { path := "a.lox" } trials)[2]? = some run ∧
        run.out = "nil\n" ∧ run.err = "" ∧ run.reporter.hadError = false ∧
        run.reporter.hadRuntimeError = false ∧
        run.reporter.reported =
          [{ line := 1, message := "at end: Expect '=' after variable name." }] := by
  have hopened : Opened sample { path := "a.lox" } := by
    have h : forFile "a.lox" .ample false false { fatal := true, color := false } =
        .ok (sample, { path := "a.lox" }) := rfl
    exact .file h
  obtain ⟨-, hruns⟩ := runs_are_independent hopened trials
  obtain ⟨run, hrun, -, hout, herr, herror, hfailed, -, hreported, -⟩ := hruns 2 "print nil;" rfl
  refine ⟨hopened, run, hrun, ?_, ?_, ?_, ?_, ?_⟩
  · rw [hout]
    decide +kernel
  · rw [herr]
    decide +kernel
  · rw [herror]
    decide +kernel
  · rw [hfailed]
    decide +kernel
  · rw [hreported]
    decide +kernel

end Runner

end MiniLox
