import MiniLox.Proofs.Console.Lines
import MiniLox.Proofs.Runner.Visibility

/-!
What the console does with its input. It answers line after line up to the
first that stops it, and each in a way of its own: a blank line not at all, a
word for help with what the console says about itself, and every other line
with one run of its program. No run can end the console, for its reporter is not
fatal.
-/

namespace MiniLox.Console

/-- What has been done for some lines: the sources that were run for them, in
order, what was written, and the reporter afterwards. -/
structure Done where
  sources : List String := []
  out : String := ""
  err : String := ""
  reporter : Reporter

/-- What is done for a line, told by the class of the line. A program is run
once, and its run comes to an end whatever it raises. -/
inductive Answer (s : Runner) (r : Reporter) (line : String) : Done → Prop where
  | nothing (h : IsBlank line) : Answer s r line { reporter := r }
  | help (h : AsksHelp line) : Answer s r line { out := helpText, reporter := r }
  | program {ran : Run} {through : Bool} (h : IsProgram line)
      (hran : (s.run r (programOf line)).settled = ran) (hends : ran.outcome = .ok through) :
      Answer s r line
        { sources := [programOf line], out := ran.out, err := ran.err, reporter := ran.reporter }

/-- Lines are answered one after another, with a prompt before each. -/
inductive Dialogue (s : Runner) : Reporter → List String → Done → Prop where
  | start {r : Reporter} : Dialogue s r [] { reporter := r }
  | line {r : Reporter} {line : String} {lines : List String} {first rest : Done}
      (answer : Answer s r line first) (later : Dialogue s first.reporter lines rest) :
      Dialogue s r (line :: lines)
        { sources := first.sources ++ rest.sources
          out := prompt ++ first.out ++ rest.out
          err := first.err ++ rest.err
          reporter := rest.reporter }

/-- The lines that are answered: those before the first that stops the console. -/
def answered (lines : List String) : List String := lines.takeWhile fun line => ¬Stops line

/-- How the console ends: with an empty line where the input has ended, or is
said to. -/
def goodbye (lines : List String) : String :=
  match lines.find? Stops with
  | none => "\n"
  | some line => if stripped line = "EOF".toList then "\n" else ""

variable {s : Runner} {r : Reporter} {line : String}

/-! ### A single line -/

theorem step_of_stops (h : Stops line) :
    step s r line =
      { outcome := .ok true
        out := if stripped line = "EOF".toList then "\n" else ""
        reporter := r } := by
  rw [step, ofLine_of_stops h]
  simp [perform]

/-- Every line that does not stop the console has an answer, after which the
next line can follow. -/
theorem exists_answer (hfatal : r.fatal = false) (hstops : ¬Stops line) :
    ∃ done, Answer s r line done ∧ done.reporter.fatal = false ∧
      step s r line =
        { outcome := .ok false, out := done.out, err := done.err, reporter := done.reporter } := by
  by_cases hblank : IsBlank line
  · refine ⟨_, .nothing hblank, hfatal, ?_⟩
    rw [step, ofLine_of_isBlank hblank]
    rfl
  by_cases hhelp : AsksHelp line
  · refine ⟨_, .help hhelp, hfatal, ?_⟩
    rw [step, ofLine_of_asksHelp hhelp]
    rfl
  · have hprogram : IsProgram line := ⟨hstops, hblank, hhelp⟩
    obtain ⟨through, hends, hnext⟩ := s.exists_settled_eq_ok (programOf line) hfatal
    refine ⟨_, .program hprogram rfl hends, hnext, ?_⟩
    rw [step, ofLine_of_isProgram hprogram, perform]
    simp only [hends]
    rfl

/-! ### All lines -/

theorem answered_cons_of_stops (h : Stops line) (lines : List String) :
    answered (line :: lines) = [] := by
  simp [answered, h]

theorem answered_cons_of_not_stops (h : ¬Stops line) (lines : List String) :
    answered (line :: lines) = line :: answered lines := by
  simp [answered, h]

theorem goodbye_cons_of_stops (h : Stops line) (lines : List String) :
    goodbye (line :: lines) = if stripped line = "EOF".toList then "\n" else "" := by
  simp [goodbye, h]

theorem goodbye_cons_of_not_stops (h : ¬Stops line) (lines : List String) :
    goodbye (line :: lines) = goodbye lines := by
  simp [goodbye, h]

/-- By induction on the lines: each leaves a reporter that is not fatal, so what
is done for the lines after it is known. -/
theorem exists_loop_eq (hfatal : r.fatal = false) (lines : List String) :
    ∃ done, Dialogue s r (answered lines) done ∧
      loop s r lines =
        { outcome := .ok true
          out := done.out ++ (prompt ++ goodbye lines)
          err := done.err
          reporter := done.reporter } := by
  induction lines generalizing r with
  | nil =>
      have hstops : Stops endOfInput := .inr (.inl (by decide))
      refine ⟨_, .start, ?_⟩
      rw [loop, step_of_stops hstops]
      rfl
  | cons line lines ih =>
      by_cases hstops : Stops line
      · rw [answered_cons_of_stops hstops, goodbye_cons_of_stops hstops]
        refine ⟨_, .start, ?_⟩
        rw [loop, step_of_stops hstops]
        simp
      · rw [answered_cons_of_not_stops hstops, goodbye_cons_of_not_stops hstops]
        obtain ⟨first, hanswer, hnext, hstep⟩ := exists_answer (s := s) hfatal hstops
        obtain ⟨rest, hrest, hloop⟩ := ih hnext
        refine ⟨_, .line hanswer hrest, ?_⟩
        rw [loop, hstep]
        simp only [hloop]
        simp [String.append_assoc]

/-- The sources that are run are the programs among the lines. -/
theorem Dialogue.sources_eq {lines : List String} {done : Done} (h : Dialogue s r lines done) :
    done.sources = (lines.filter IsProgram).map programOf := by
  induction h with
  | start => rfl
  | @line r line lines first rest answer _ ih =>
      have hfirst : first.sources = ([line].filter IsProgram).map programOf := by
        cases answer with
        | nothing h => simp [isProgram_iff, h]
        | help h => simp [isProgram_iff, h]
        | program h hran hends => simp [h]
      rw [← List.singleton_append, List.filter_append, List.map_append, ← hfirst, ← ih]

/-- The console answers the lines of its input in order up to the first that
stops it, or all of them, and then ends normally, whatever their programs raise
and whatever lines are left. The programs are all the lines that are no word of
the console, and those that only look like one are among them. -/
theorem session_answers_lines (path : String) (limits : Limits) (showTokens showTrees : Bool)
    (r : Reporter) (input : String) :
    let console := Runner.forConsole path limits showTokens showTrees r
    (∃ done, Dialogue console.1 console.2 (answered (inputLines input)) done ∧
      done.sources = ((answered (inputLines input)).filter IsProgram).map programOf ∧
      session console.1 console.2 input =
        { outcome := .ok true
          out := intro ++ (done.out ++ (prompt ++ goodbye (inputLines input)))
          err := done.err
          reporter := done.reporter }) ∧
    (∀ line, Resembles line →
      IsProgram line ∧ programOf line = String.ofList (stripped line)) ∧
    ∀ line rest, stripped line = '?' :: rest → rest ≠ [] →
      IsProgram line ∧ programOf line = "help " ++ String.ofList rest := by
  intro console
  refine ⟨?_, fun line h => ⟨h.isProgram, h.programOf_eq⟩, ?_⟩
  · obtain ⟨done, hdialogue, hloop⟩ :=
      exists_loop_eq (s := console.1) (r := console.2) rfl (inputLines input)
    refine ⟨done, hdialogue, hdialogue.sources_eq, ?_⟩
    simp only [session, hloop]
  · intro line rest hline hrest
    refine ⟨isProgram_of_question hline hrest, ?_⟩
    rw [programOf, hline, ← String.toList_inj]
    simp [expand]

/-- Words with something behind them are run, and what follows the line that
stops the console is not. -/
theorem session_answers_lines_exit :
    let console := Runner.forConsole Runner.consolePath .ample false false {}
    IsProgram "exit;" ∧ IsProgram " ?;" ∧
      ∃ done, Dialogue console.1 console.2 ["exit;", " ?;", "help"] done ∧
        done.sources = ["exit;", "help ;"] ∧
        session console.1 console.2 "exit;\n ?;\nhelp\n.EXIT\nprint 1;" =
          { outcome := .ok true
            out := intro ++ (done.out ++ (prompt ++ ""))
            err := done.err
            reporter := done.reporter } := by
  intro console
  have hword : Resembles "exit;" :=
    .word (.inr (.inl rfl)) (List.cons_ne_nil ';' []) (by decide)
  obtain ⟨⟨done, hdialogue, hsources, hsession⟩, hresembles, hquestion⟩ :=
    session_answers_lines Runner.consolePath .ample false false {}
      "exit;\n ?;\nhelp\n.EXIT\nprint 1;"
  have hanswered : answered (inputLines "exit;\n ?;\nhelp\n.EXIT\nprint 1;") =
      ["exit;", " ?;", "help"] := by
    decide
  have hgoodbye : goodbye (inputLines "exit;\n ?;\nhelp\n.EXIT\nprint 1;") = "" := by
    decide
  rw [hanswered] at hdialogue hsources
  rw [hgoodbye] at hsession
  refine ⟨(hresembles _ hword).1, (hquestion " ?;" [';'] (by decide) (by decide)).1, done,
    hdialogue, hsources.trans (by decide), hsession⟩

end MiniLox.Console
