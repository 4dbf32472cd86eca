import MiniLox.Proofs.Runner.Visibility
import MiniLox.Proofs.Token.Stops

/-!
What is shown on request. Tokens and statements are shown in front of what a
program prints, each as soon as the text has them, and showing them is all that a
request does: how the run ends, what is written about it and what the reporter
remembers of it are those of the run that shows nothing. Only a tree too deep to
be shown can tell the two apart.
-/

namespace MiniLox

open Grammar hiding Failure

namespace Runner

variable {s : Runner} {r : Reporter} {source : String}

/-- The runner that shows nothing but what programs print. -/
def quiet (s : Runner) : Runner := { path := s.path, limits := s.limits }

/-- The line that shows a token: its kind, its lexeme and the line where it
stands. -/
def tokenLine (t : Token) : String :=
  t.kind.name ++ " " ++ t.lexeme ++ " " ++ toString t.line ++ "\n"

/-- What is shown in front of a run of a text. A text without tokens has nothing to
show. -/
def requested (s : Runner) (source : String) : String :=
  match Token.scan source with
  | .error _ => ""
  | .ok tokens =>
    (if s.showTokens then String.join (tokens.map tokenLine) else "") ++
      if s.showTrees then
        String.join ((s.program tokens).statements.map fun st => st.display ++ "\n")
      else ""

theorem requested_of_scan_error {e : ScanError} (hscan : Token.scan source = .error e) :
    s.requested source = "" := by
  rw [requested, hscan]

theorem requested_of_scan_ok {tokens : List Token} (hscan : Token.scan source = .ok tokens) :
    s.requested source = s.shown tokens := by
  rw [requested, hscan]
  rfl

/-- A request changes nothing but what is printed in front. -/
theorem run_eq_quiet (hlimits : s.WithinLimits source) :
    s.run r source =
      { s.quiet.run r source with
        out := s.requested source ++ (s.quiet.run r source).out } := by
  cases hscan : Token.scan source with
  | error e =>
      rw [requested_of_scan_error hscan, run_of_scan_error hscan, run_of_scan_error hscan]
      rfl
  | ok tokens =>
      have hs := hlimits tokens hscan
      -- The quiet run has no use for trees that are low enough to be shown.
      have hquiet := run_of_scan_ok (s := s.quiet) (r := r) hscan hs.read nofun
      rw [requested_of_scan_ok hscan, run_of_scan_ok hscan hs.read hs.showable, hquiet]
      rfl

/-- A run that ends in any other way has met no tree that is too deep. -/
theorem withinLimits_of_outcome (h : (s.run r source).outcome.toOption.isSome = true) :
    s.WithinLimits source := by
  by_contra hdeep
  have hraised : (s.run r source).outcome = .error .tooDeep :=
    outcome_eq_error_iff.mpr (.inl ⟨rfl, hdeep⟩)
  rw [hraised] at h
  contradiction

/-- What is shown on request changes nothing else. The run ends in the same way,
writes the same about what is wrong and leaves the same reporter, with its record
and its flags; and it prints what was asked for, the tokens in front of the
statements, and then what the run prints that shows nothing. -/
theorem requests_change_nothing (s : Runner) (r : Reporter) (source : String)
    (hlimits : s.WithinLimits source) :
    (s.run r source).outcome = (s.quiet.run r source).outcome ∧
      (s.run r source).err = (s.quiet.run r source).err ∧
      (s.run r source).reporter = (s.quiet.run r source).reporter ∧
      (∀ e, Token.scan source = .error e → (s.run r source).out = "") ∧
      ∀ tokens, Token.scan source = .ok tokens →
        (s.run r source).out =
          (if s.showTokens then String.join (tokens.map tokenLine) else "") ++
            (if s.showTrees then
              String.join ((s.program tokens).statements.map fun st => st.display ++ "\n")
            else "") ++
              (s.quiet.run r source).out := by
  have hrun := run_eq_quiet (r := r) hlimits
  refine ⟨by rw [hrun], by rw [hrun], by rw [hrun], fun e hscan => ?_, fun tokens hscan => ?_⟩
  · rw [run_of_scan_error hscan]
  · rw [hrun, requested, hscan]

/-- All that can be shown of a text with a mistake and a statement that fails. -/
theorem requests_change_nothing_scraps :
    let loud : Runner := { sample with showTokens := true, showTrees := true }
    loud.WithinLimits scraps ∧ (loud.run {} scraps).reporter.hadRuntimeError = true ∧
      ∃ tokens, Token.scan scraps = .ok tokens ∧
        (loud.run {} scraps).out =
          String.join (tokens.map tokenLine) ++
            String.join
              ((loud.program tokens).statements.map fun st => st.display ++ "\n") ++ "a\n" := by
  intro loud
  have hlimits : loud.WithinLimits scraps :=
    withinLimits_of_outcome (r := { fatal := false }) (by decide +kernel)
  have hfailed : (loud.quiet.run {} scraps).reporter.hadRuntimeError = true := by decide +kernel
  have hquiet : (loud.quiet.run {} scraps).out = "a\n" := by decide +kernel
  obtain ⟨tokens, hscan⟩ := Token.scanError?_eq_none_iff.mp
    (show Token.scanError? scraps = none by decide +kernel)
  obtain ⟨-, -, hreporter, -, hout⟩ := requests_change_nothing loud {} scraps hlimits
  refine ⟨hlimits, ?_, tokens, hscan, ?_⟩
  · rw [hreporter, hfailed]
  · rw [hout tokens hscan, hquiet]
    rfl

end Runner

end MiniLox
