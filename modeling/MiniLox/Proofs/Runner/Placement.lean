import MiniLox.Proofs.Evaluation.Contents
import MiniLox.Proofs.Evaluation.Placement
import MiniLox.Proofs.Runner.Outcome

/-!
Texts that differ in nothing but blanks and comments. Their tokens show the
same in the same order, so what is parsed from them is the same under the mask
for places, and everything that does not show a place is equal: how trees are
shown, what is wrong with the texts, what is printed, and how the runs end.
-/

namespace MiniLox

open Evaluation
open Grammar hiding Failure

/-- Two texts that can be scanned into tokens that show the same. -/
structure SameTokens (source source' : String) (tokens tokens' : List Token) : Prop where
  scan : Token.scan source = .ok tokens
  scan' : Token.scan source' = .ok tokens'
  faces : tokens.map Token.face = tokens'.map Token.face

variable {s : Runner} {source source' : String} {tokens tokens' : List Token}

namespace SameTokens

theorem symm (h : SameTokens source source' tokens tokens') :
    SameTokens source' source tokens' tokens :=
  ⟨h.scan', h.scan, h.faces.symm⟩

/-! ### What is parsed -/

/-- What is parsed is the same but for places. -/
theorem program_unplaced (h : SameTokens source source' tokens tokens') :
    Mask.places.program (s.program tokens) = Mask.places.program (s.program tokens') := by
  have htokens : tokens.map Mask.places.token = tokens'.map Mask.places.token :=
    Token.map_unplaced_congr h.scan h.scan' h.faces
  rw [Runner.program, Runner.program, ← Mask.ofTokens_map, ← Mask.ofTokens_map, htokens]

theorem tooDeep_eq (h : SameTokens source source' tokens tokens') :
    (s.program tokens).tooDeep = (s.program tokens').tooDeep := by
  show (Mask.places.program _).tooDeep = (Mask.places.program _).tooDeep
  rw [h.program_unplaced]

theorem statements_unplaced (h : SameTokens source source' tokens tokens') :
    (s.program tokens).statements.map Mask.places.stmt =
      (s.program tokens').statements.map Mask.places.stmt := by
  rw [← Mask.statements_program, ← Mask.statements_program, h.program_unplaced]

/-- What is said of statements without regard to places is said of both. -/
theorem map_statements {α : Type} {f : Stmt → α} (hf : ∀ st, f (Mask.places.stmt st) = f st)
    (h : SameTokens source source' tokens tokens') :
    (s.program tokens).statements.map f = (s.program tokens').statements.map f := by
  have hunplaced := congrArg (List.map f) (h.statements_unplaced (s := s))
  simpa only [List.map_map, Function.comp_def, hf] using hunplaced

theorem messages_eq (h : SameTokens source source' tokens tokens') :
    (s.program tokens).errors.map SyntaxError.message =
      (s.program tokens').errors.map SyntaxError.message := by
  have herrors : (s.program tokens).errors.map Mask.places.error =
      (s.program tokens').errors.map Mask.places.error := by
    rw [← Mask.errors_program, ← Mask.errors_program, h.program_unplaced]
  have hunplaced := congrArg (List.map SyntaxError.message) herrors
  simpa only [List.map_map, Function.comp_def, SyntaxError.message_unplaced] using hunplaced

/-! ### What is run -/

theorem run_unplaced (h : SameTokens source source' tokens tokens') :
    (s.machine.run (s.program tokens).statements).unplaced =
      (s.machine.run (s.program tokens').statements).unplaced := by
  rw [← Machine.run_unplaced, ← Machine.run_unplaced, h.statements_unplaced]

end SameTokens

namespace Execution

variable {ran ran' : Execution}

theorem output_eq_of (h : ran.unplaced = ran'.unplaced) : ran.output = ran'.output := by
  show ran.unplaced.output = ran'.unplaced.output
  rw [h]

theorem failure_eq_none_iff (h : ran.unplaced = ran'.unplaced) :
    ran.failure = none ↔ ran'.failure = none := by
  have hfailure : ran.failure.map Failure.unplaced = ran'.failure.map Failure.unplaced :=
    congrArg failure h
  rw [← Option.map_eq_none_iff (f := Failure.unplaced), hfailure, Option.map_eq_none_iff]

theorem failure_eq_tooDeep_of (h : ran.unplaced = ran'.unplaced)
    (hdeep : ran.failure = some .tooDeep) : ran'.failure = some .tooDeep := by
  have hfailure : ran.failure.map Failure.unplaced = ran'.failure.map Failure.unplaced :=
    congrArg failure h
  rw [hdeep] at hfailure
  obtain ⟨failure, hran', hunplaced⟩ := Option.map_eq_some_iff.mp hfailure.symm
  cases failure with
  | tooDeep => exact hran'
  | error | unknownUnary | unknownBinary | notExpression => contradiction

/-- The failures are at tokens that show the same, with the same said. -/
theorem exists_error_of (h : ran.unplaced = ran'.unplaced) {e : RuntimeError}
    (herror : ran.failure = some (.error e)) :
    ∃ e' : RuntimeError, ran'.failure = some (.error e') ∧ e'.token.face = e.token.face ∧
      e'.fault = e.fault ∧ e'.message = e.message := by
  have hfailure : ran.failure.map Failure.unplaced = ran'.failure.map Failure.unplaced :=
    congrArg failure h
  rw [herror] at hfailure
  obtain ⟨failure, hran', hunplaced⟩ := Option.map_eq_some_iff.mp hfailure.symm
  cases failure with
  | error e' =>
      have he : e'.unplaced = e.unplaced := Failure.error.inj hunplaced
      have htoken : e'.token.unplaced = e.token.unplaced := congrArg RuntimeError.token he
      have hfault : e'.unplaced.fault = e.unplaced.fault := congrArg RuntimeError.fault he
      have hface : e'.token.unplaced.face = e.token.unplaced.face := congrArg Token.face htoken
      have hlexeme : e'.token.lexeme = e.token.lexeme := congrArg Prod.snd hface
      refine ⟨e', hran', hface, hfault, ?_⟩
      exact RuntimeError.message_congr hlexeme hfault
  | unknownUnary | unknownBinary | notExpression | tooDeep => contradiction

end Execution

/-! ### How the runs end -/

namespace Runner

variable {r : Reporter}

theorem Shallow.of_sameTokens (hs : s.Shallow tokens)
    (h : SameTokens source source' tokens tokens') : s.Shallow tokens' where
  read := h.tooDeep_eq ▸ hs.read
  showable htrees := by
    have hall : (s.program tokens).statements.map Stmt.height =
        (s.program tokens').statements.map Stmt.height :=
      h.map_statements Stmt.height_unplaced
    have hlow : ∀ height ∈ (s.program tokens').statements.map Stmt.height,
        height ≤ s.limits.display := by
      rw [← hall, List.forall_mem_map]
      exact fun st hst => of_decide_eq_true (hs.showable htrees st hst)
    rw [List.forall_mem_map] at hlow
    exact fun st hst => decide_eq_true (hlow st hst)
  evaluated hdeep := hs.evaluated (Execution.failure_eq_tooDeep_of h.run_unplaced.symm hdeep)

theorem treeDump_eq_join (statements : List Stmt) :
    treeDump statements = String.join ((statements.map Stmt.display).map (· ++ "\n")) := by
  rw [treeDump, List.map_map]
  rfl

theorem messages_mistakes (hscan : Token.scan source = .ok tokens) :
    (s.mistakes source).map Report.message =
      (s.program tokens).errors.map SyntaxError.message := by
  rw [s.mistakes_of_scan_ok hscan, List.map_map]
  rfl

/-- What two runs have in common whose texts have the same tokens: how they
end, what they write behind the tokens, and what they say is wrong. -/
structure Alike (s : Runner) (tokens tokens' : List Token) (ran ran' : Run) : Prop where
  outcome : ran.outcome = ran'.outcome
  out : ∃ rest, ran.out = (if s.showTokens then tokenDump tokens else "") ++ rest ∧
    ran'.out = (if s.showTokens then tokenDump tokens' else "") ++ rest
  hadError : ran.reporter.hadError = ran'.reporter.hadError
  hadRuntimeError : ran.reporter.hadRuntimeError = ran'.reporter.hadRuntimeError
  reported : ran.reporter.reported.map Report.message = ran'.reporter.reported.map Report.message

theorem messages_mistakes_eq (h : SameTokens source source' tokens tokens') :
    (s.mistakes source).map Report.message = (s.mistakes source').map Report.message := by
  rw [messages_mistakes h.scan, messages_mistakes h.scan', h.messages_eq]

/-- What is shown of two texts differs in their tokens alone. -/
theorem exists_shown_append (h : SameTokens source source' tokens tokens') :
    ∃ rest,
      s.shown tokens ++ (s.machine.run (s.program tokens).statements).output =
          (if s.showTokens then tokenDump tokens else "") ++ rest ∧
        s.shown tokens' ++ (s.machine.run (s.program tokens').statements).output =
          (if s.showTokens then tokenDump tokens' else "") ++ rest := by
  have hdump : treeDump (s.program tokens).statements =
      treeDump (s.program tokens').statements := by
    rw [treeDump_eq_join, treeDump_eq_join, h.map_statements Stmt.display_unplaced]
  have houtput : (s.machine.run (s.program tokens).statements).output =
      (s.machine.run (s.program tokens').statements).output :=
    Execution.output_eq_of h.run_unplaced
  refine ⟨_, String.append_assoc .., ?_⟩
  rw [hdump, houtput]
  exact String.append_assoc ..

theorem run_alike (h : SameTokens source source' tokens tokens') (hs : s.Shallow tokens) :
    Alike s tokens tokens' (s.run r source) (s.run r source') := by
  have hs' : s.Shallow tokens' := hs.of_sameTokens h
  have hmessages := messages_mistakes_eq (s := s) h
  have hempty : (s.mistakes source).isEmpty = (s.mistakes source').isEmpty := by
    rw [← List.isEmpty_map, hmessages, List.isEmpty_map]
  have hreported (failed : Bool) : (s.reporterAfter r source failed).reported.map Report.message =
      (s.reporterAfter r source' failed).reported.map Report.message := by
    simp [reporterAfter, hmessages]
  have hflag (failed : Bool) : (s.reporterAfter r source failed).hadError =
      (s.reporterAfter r source' failed).hadError :=
    congrArg not hempty
  cases hran : (s.machine.run (s.program tokens).statements).failure with
  | none =>
      have hran' := (Execution.failure_eq_none_iff h.run_unplaced).mp hran
      rw [run_of_success h.scan hs hran, run_of_success h.scan' hs' hran', hempty]
      exact ⟨rfl, exists_shown_append h, hflag false, rfl, hreported false⟩
  | some failure =>
      rcases Machine.run_failure_of_tokens hran with rfl | ⟨e, rfl, -, -⟩
      · exact absurd hran hs.evaluated
      obtain ⟨e', hran', -, -, -⟩ := Execution.exists_error_of h.run_unplaced hran
      rw [run_of_failure h.scan hs hran, run_of_failure h.scan' hs' hran']
      exact ⟨rfl, exists_shown_append h, hflag true, rfl, hreported true⟩

/-- Nothing depends on where tokens stand but what shows it. Texts that have the
same tokens have the same statements but for places, and these are shown the
same; the same is said about what is wrong with the texts, in the same order;
their programs print the same and come to the same end, or they fail at tokens
that show the same, with the same said. So their runs are alike. -/
theorem layout_does_not_matter (h : SameTokens source source' tokens tokens') (s : Runner) :
    let program := s.program tokens
    let program' := s.program tokens'
    let ran := s.machine.run program.statements
    let ran' := s.machine.run program'.statements
    program.statements.map Mask.places.stmt = program'.statements.map Mask.places.stmt ∧
      program.statements.map Stmt.display = program'.statements.map Stmt.display ∧
      program.errors.map SyntaxError.message = program'.errors.map SyntaxError.message ∧
      ran.printed = ran'.printed ∧ ran.output = ran'.output ∧ ran.machine = ran'.machine ∧
      (ran.failure = none ↔ ran'.failure = none) ∧
      (∀ e, ran.failure = some (.error e) →
        ∃ e' : RuntimeError, ran'.failure = some (.error e') ∧ e'.token.kind = e.token.kind ∧
          e'.token.lexeme = e.token.lexeme ∧ e'.fault = e.fault ∧ e'.message = e.message) ∧
      (s.Shallow tokens ↔ s.Shallow tokens') ∧
      (s.Shallow tokens → ∀ r, Alike s tokens tokens' (s.run r source) (s.run r source')) := by
  intro program program' ran ran'
  have hran : ran.unplaced = ran'.unplaced := h.run_unplaced
  have hprinted : ran.unplaced.printed = ran'.unplaced.printed := congrArg Execution.printed hran
  have houtput : ran.unplaced.output = ran'.unplaced.output := congrArg Execution.output hran
  have hmachine : ran.unplaced.machine = ran'.unplaced.machine := congrArg Execution.machine hran
  refine ⟨h.statements_unplaced, h.map_statements Stmt.display_unplaced, h.messages_eq, hprinted,
    houtput, hmachine, Execution.failure_eq_none_iff hran, fun e he => ?_, ?_, ?_⟩
  · obtain ⟨e', he', hface, hfault, hmessage⟩ := Execution.exists_error_of hran he
    obtain ⟨hkind, hlexeme⟩ := Prod.mk.inj hface
    exact ⟨e', he', hkind, hlexeme, hfault, hmessage⟩
  · exact ⟨fun hs => hs.of_sameTokens h, fun hs => hs.of_sameTokens h.symm⟩
  · exact fun hs r => run_alike h hs

/-- A declaration and a sum that fails, on one line. -/
def narrow : String := "var a=\"1\";print a;print;a+nil;"

/-- The same with room. -/
def wide : String := "var a = \"1\"; // one\n\nprint\ta;\nprint ;\n  a\n+ nil;"

theorem layout_does_not_matter_wide :
    ∃ tokens tokens', SameTokens narrow wide tokens tokens' ∧
      Alike sample tokens tokens' (run sample {} narrow) (run sample {} wide) ∧
      (sample.machine.run (sample.program tokens).statements).output =
        (sample.machine.run (sample.program tokens').statements).output := by
  have hfaces : (Token.scan narrow).toOption.map (List.map Token.face) =
      (Token.scan wide).toOption.map (List.map Token.face) := by
    decide +kernel
  have hraised : (run sample { fatal := false } narrow).outcome.toOption =
      some false := by
    decide +kernel
  cases hscan : Token.scan narrow with
  | error e =>
      have hscans : (Token.scan narrow).toOption.isSome = true := by decide +kernel
      rw [hscan] at hscans
      contradiction
  | ok tokens =>
      cases hscan' : Token.scan wide with
      | error e =>
          rw [hscan, hscan'] at hfaces
          contradiction
      | ok tokens' =>
          rw [hscan, hscan'] at hfaces
          have h : SameTokens narrow wide tokens tokens' :=
            ⟨hscan, hscan', Option.some.inj hfaces⟩
          -- If a tree were too deep, the run would have raised it.
          have hs : Shallow sample tokens := by
            by_contra hdeep
            rw [run_of_not_shallow hscan hdeep] at hraised
            contradiction
          obtain ⟨-, -, -, -, houtput, -, -, -, -, halike⟩ := layout_does_not_matter h sample
          exact ⟨tokens, tokens', h, halike hs _, houtput⟩

end Runner

end MiniLox
