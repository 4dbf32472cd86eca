import MiniLox.Main
import MiniLox.Proofs.CommandLine.Scripts
import MiniLox.Proofs.Runner.Visibility

/-!
What the status of a script says. Whatever a run raises is settled by a fatal
reporter, which writes about it and exits with status one; and a run that says
itself that it did not go through is ended by the same exit. So the command
ends normally exactly if nothing was written about its script.
-/

namespace MiniLox

/-- Either a run has gone through and nothing is written about it, or something
is written and it ends in an exit with status one. -/
def Run.TellsTruth (ran : Run) : Prop :=
  ran.outcome = .ok true ∧ ran.err = "" ∨
    ran.outcome = .error (.exit (some 1)) ∧ ran.err ≠ ""

/-- Whether something that was raised is an exit already. -/
def Raised.isExit : Raised → Bool
  | exit _ => true
  | _ => false

variable {r : Reporter} {ran : Run} {raised : Raised}

/-- Whatever it is, a fatal reporter throws it as a diagnostic, and so it
exits. -/
theorem Reporter.settle_of_fatal (hfatal : r.fatal = true) (hraised : raised.isExit = false) :
    ∃ d, r.settle raised = r.throw d := by
  cases raised with
  | complaint d => exact ⟨d, rfl⟩
  | tooDeep | interrupted => exact ⟨_, rfl⟩
  | fault f =>
      refine ⟨f.diagnostic, ?_⟩
      simp [settle, throw, hfatal]
  | exit code => contradiction

namespace Run

theorem settled_of_exit {code : Option Int} (h : ran.outcome = .error (.exit code)) :
    ran.settled = ran := by
  obtain ⟨outcome, out, err, reporter⟩ := ran
  cases h
  simp [settled, Reporter.settle]

theorem TellsTruth.settled (h : ran.TellsTruth) : ran.settled.TellsTruth := by
  rcases h with ⟨houtcome, herr⟩ | ⟨houtcome, herr⟩
  · rw [settled_of_ok houtcome]
    exact .inl ⟨houtcome, herr⟩
  · rw [settled_of_exit houtcome]
    exact .inr ⟨houtcome, herr⟩

theorem settled_of_raised (hraises : ran.outcome = .error raised) (hraised : raised.isExit = false)
    (hfatal : ran.reporter.fatal = true) :
    ∃ d, ran.settled =
      { outcome := .error (.exit (some 1))
        out := ran.out
        err := ran.err ++ (ran.reporter.throw d).err
        reporter := (ran.reporter.throw d).reporter } := by
  obtain ⟨d, hsettle⟩ := Reporter.settle_of_fatal hfatal hraised
  refine ⟨d, ?_⟩
  simp only [settled, hraises, hsettle]
  simp [Reporter.throw, hfatal]

theorem tellsTruth_settled_of_raised (hraises : ran.outcome = .error raised)
    (hraised : raised.isExit = false) (hfatal : ran.reporter.fatal = true) :
    ran.settled.TellsTruth := by
  obtain ⟨d, hsettled⟩ := settled_of_raised hraises hraised hfatal
  rw [hsettled]
  exact .inr ⟨rfl, fun hempty =>
    ran.reporter.throw_err_ne_empty d (String.append_eq_empty_iff.mp hempty).2⟩

end Run

namespace CommandLine

variable {limits : Limits} {files : Files} {settings : Settings} {path source : String}
  {s : Runner}

/-- The run of a script, ended by an exit if it says that it did not go
through. -/
def ended (ran : Run) : Run :=
  match ran.outcome with
  | .ok false => { ran with outcome := .error (.exit (some 1)) }
  | _ => ran

theorem ended_of_error (h : ran.outcome = .error raised) : ended ran = ran := by
  rw [ended, h]

theorem runScript_of_ne (hpath : path ≠ Runner.consolePath) :
    runScript limits files r settings path =
      ended (Runner.runFile
        { path := path
          limits := limits
          showTokens := settings.showTokens
          showTrees := settings.showTrees }
        files { r with path := path }) := by
  rw [runScript, Runner.forFile, if_neg hpath]
  rfl

/-- The run of a text has dealt with everything but that a tree is too deep. -/
theorem tellsTruth_ended_run (hlimits : s.WithinLimits source) :
    (ended (s.run r source)).TellsTruth := by
  have hwritten : (s.run r source).outcome ≠ .ok true → (s.run r source).err ≠ "" :=
    mt (Runner.outcome_eq_ok_true_iff hlimits).mpr
  cases houtcome : (s.run r source).outcome with
  | error raised =>
      rcases Runner.outcome_eq_error_iff.mp houtcome with ⟨-, hdeep⟩ | ⟨rfl, -⟩
      · exact absurd hlimits hdeep
      · rw [ended_of_error houtcome]
        exact .inr ⟨houtcome, hwritten (by simp [houtcome])⟩
  | ok through =>
      rw [ended, houtcome]
      cases through with
      | true => exact .inl ⟨houtcome, (Runner.outcome_eq_ok_true_iff hlimits).mp houtcome⟩
      | false => exact .inr ⟨rfl, hwritten (by simp [houtcome])⟩

theorem tellsTruth_settled_ended_run (hfatal : r.fatal = true) :
    (ended (s.run r source)).settled.TellsTruth := by
  by_cases hlimits : s.WithinLimits source
  · -- What is settled a second time is an exit, and that is left alone.
    exact (tellsTruth_ended_run hlimits).settled
  · have hraises : (s.run r source).outcome = .error .tooDeep :=
      Runner.outcome_eq_error_iff.mpr (.inl ⟨rfl, hlimits⟩)
    have hreporter : (s.run r source).reporter.fatal = true := Runner.fatal_run.trans hfatal
    rw [ended_of_error hraises]
    exact Run.tellsTruth_settled_of_raised hraises rfl hreporter

/-! ### A script and its file -/

/-- Why the file of a script cannot be read. -/
inductive Unreadable (files : Files) (path : String) : Prop where
  | reserved (h : path = Runner.consolePath)
  | nul (h : path.toList.contains '\x00' = true)
  | unopened (h : files path = none)
  | undecoded {bytes : ByteArray} (h : files path = some bytes)
      (hbytes : String.fromUTF8? bytes = none)

/-- Either the file of a script cannot be read, and then nothing runs, or its
text is run. -/
theorem runScript_cases (limits : Limits) (files : Files) (settings : Settings) (path : String)
    (color : Bool) :
    Unreadable files path ∧ (∃ raised : Raised, raised.isExit = false ∧
        runScript limits files { color := color } settings path =
          { outcome := .error raised, reporter := { path := path, color := color } }) ∨
      ¬Unreadable files path ∧ ∃ s source,
        runScript limits files { color := color } settings path =
          ended (Runner.run s { path := path, color := color } source) := by
  by_cases hreserved : path = Runner.consolePath
  · subst hreserved
    exact .inl ⟨.reserved rfl, _, rfl, rfl⟩
  rw [runScript_of_ne hreserved]
  -- The cases come in the order in which a file is asked for, opened and decoded.
  cases hnul : path.toList.contains '\x00' with
  | true =>
      refine .inl ⟨.nul hnul, .fault .nulInPath, rfl, ?_⟩
      simp only [Runner.runFile, hnul]
      rfl
  | false =>
      cases hbytes : files path with
      | none =>
          refine .inl ⟨.unopened hbytes, Runner.fileComplaint path "opened", rfl, ?_⟩
          simp only [Runner.runFile, hnul, hbytes]
          rfl
      | some bytes =>
          cases htext : String.fromUTF8? bytes with
          | none =>
              refine .inl ⟨.undecoded hbytes htext, Runner.fileComplaint path "decoded", rfl, ?_⟩
              simp only [Runner.runFile, hnul, hbytes, htext]
              rfl
          | some text =>
              refine .inr ⟨?_, ?_⟩
              · rintro (h | h | h | ⟨h, hbad⟩)
                · exact hreserved h
                · exact absurd (hnul.symm.trans h) Bool.false_ne_true
                · simp [hbytes] at h
                · obtain rfl := Option.some.inj (hbytes.symm.trans h)
                  simp [htext] at hbad
              · simp only [Runner.runFile, hnul, hbytes, htext]
                exact ⟨_, _, rfl⟩

/-! ### The status of a script -/

variable {color : Bool} {input : String} {arguments : List String}

theorem run_of_script (hrequest : request arguments = .ok (.run settings))
    (hscripts : settings.scripts = [path]) :
    run limits color files input arguments =
      (runScript limits files { color := color } settings path).settled := by
  rw [run, work, hrequest]
  simp only [hscripts]

theorem tellsTruth_settled_runScript :
    (runScript limits files { color := color } settings path).settled.TellsTruth := by
  rcases runScript_cases limits files settings path color with
    ⟨-, raised, hraised, hrun⟩ | ⟨-, s, source, hrun⟩
  · rw [hrun]
    exact Run.tellsTruth_settled_of_raised rfl hraised rfl
  · rw [hrun]
    exact tellsTruth_settled_ended_run rfl

/-- All that is left of a script that cannot be read is what is thrown about
its file. -/
theorem settled_runScript_of_unreadable (h : Unreadable files path) :
    ∃ d, (runScript limits files { color := color } settings path).settled =
      { outcome := .error (.exit (some 1))
        err := (Reporter.throw { path := path, color := color } d).err
        reporter := { path := path, color := color, hadRuntimeError := true } } := by
  rcases runScript_cases limits files settings path color with
    ⟨-, raised, hraised, hrun⟩ | ⟨hreadable, -⟩
  · rw [hrun]
    let lost : Run := { outcome := .error raised, reporter := { path := path, color := color } }
    have hraises : lost.outcome = .error raised := rfl
    obtain ⟨d, hsettled⟩ := Run.settled_of_raised hraises hraised rfl
    refine ⟨d, ?_⟩
    rw [hsettled]
    simp [lost, Reporter.throw]
  · exact absurd h hreadable

/-- The command ends normally on a single script exactly if nothing is written
about it, and otherwise with status one. That is so whatever options are given,
whatever the name of the script is and whatever is found under it; and if that
cannot be read, nothing is written but what is wrong with it. -/
theorem exit_status_tells_the_truth (limits : Limits) (color : Bool) (files : Files)
    (input : String) :
    (∀ before path after, AllShowing before → AllShowing after →
        path.toList.head? ≠ some '-' →
        request (before ++ path :: after) = .ok (.run (.forScript path (before ++ after)))) ∧
      (∀ before path, AllShowing before →
        request (before ++ ["--", path]) = .ok (.run (.forScript path before))) ∧
      ∀ arguments settings path, request arguments = .ok (.run settings) →
        settings.scripts = [path] →
        let ran := run limits color files input arguments
        ((∃ through, ran.outcome = .ok through) ↔ ran.err = "") ∧
          (ran.err ≠ "" → ran.outcome = .error (.exit (some 1))) ∧
          exitStatus ran.outcome = (if ran.err = "" then 0 else 1) ∧
          (Unreadable files path → ran.out = "" ∧ ran.err ≠ "" ∧ ∃ d,
            ran =
              { outcome := .error (.exit (some 1))
                err := (Reporter.throw { path := path, color := color } d).err
                reporter := { path := path, color := color, hadRuntimeError := true } }) := by
  refine ⟨fun before path after => request_of_name, fun before path => request_of_separator, ?_⟩
  intro arguments settings path hrequest hscripts ran
  have hran : ran = (runScript limits files { color := color } settings path).settled :=
    run_of_script hrequest hscripts
  have htruth : ran.TellsTruth := by
    rw [hran]
    exact tellsTruth_settled_runScript
  refine ⟨?_, ?_, ?_, ?_⟩
  · rcases htruth with ⟨houtcome, herr⟩ | ⟨houtcome, herr⟩ <;> simp [houtcome, herr]
  · rcases htruth with ⟨houtcome, herr⟩ | ⟨houtcome, herr⟩ <;> simp [houtcome, herr]
  · rcases htruth with ⟨houtcome, herr⟩ | ⟨houtcome, herr⟩
    · simp [houtcome, herr, exitStatus]
    · simp [houtcome, herr, exitStatus]
  · intro hunreadable
    obtain ⟨d, hsettled⟩ := settled_runScript_of_unreadable hunreadable
    rw [hran, hsettled]
    exact ⟨rfl, Reporter.throw_err_ne_empty _ d, d, rfl⟩

/-- Two scripts, of which one is there. -/
def shelf : Files := fun path => if path = "greet.lox" then some "print \"a\";".toUTF8 else none

theorem exit_status_tells_the_truth_shelf :
    (∃ through, (run .ample false shelf "" ["--tokens", "greet.lox", "--tokens"]).outcome =
        .ok through) ∧
      (run .ample false shelf "" ["--", "-lost.lox"]).outcome = .error (.exit (some 1)) ∧
      (run .ample false shelf "" ["--", "-lost.lox"]).out = "" := by
  obtain ⟨hname, hseparator, hstatus⟩ := exit_status_tells_the_truth .ample false shelf ""
  have hgreet := hname ["--tokens"] "greet.lox" ["--tokens"] (by simp [AllShowing])
    (by simp [AllShowing]) (by decide)
  have hlost := hseparator [] "-lost.lox" (by simp [AllShowing])
  obtain ⟨hends, -⟩ := hstatus _ _ "greet.lox" hgreet rfl
  obtain ⟨-, hexits, -, hunread⟩ := hstatus _ _ "-lost.lox" hlost rfl
  obtain ⟨hout, herr, -⟩ := hunread (.unopened (by decide))
  refine ⟨hends.mpr ?_, hexits herr, hout⟩
  decide +kernel

end CommandLine

end MiniLox
