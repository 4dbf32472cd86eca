import MiniLox.Files
import MiniLox.Grammar.Program
import MiniLox.Machine
import MiniLox.Report.Reporter
import MiniLox.Token.Scan

/-!
From a source text to what a run of it does. A text is scanned, parsed and
run; a scan error ends the run at once, mistakes only leave out the
statements they are in, and a failure of the running program leaves out the
statements after it. On request the tokens are shown before the text is
parsed, and the statements before they are run.

Every run starts on a fresh machine with clear flags and its own source at
hand, and puts the source away however it ends, so no run can tell what ran
before it.
-/

namespace MiniLox

/-- The levels that can be gone through: of nesting when a statement is read,
and of a tree when it is evaluated or shown. They belong to where a program
runs and not to the language. -/
structure Limits where
  nesting : Nat
  height : Nat
  display : Nat

/-- Limits that are far from what people write. What is proved of runs holds
within any. -/
def Limits.ample : Limits where
  nesting := 290
  height := 1000
  display := 1000

structure Runner where
  path : String
  limits : Limits
  showTokens : Bool := false
  showTrees : Bool := false

/-- The outcome of a run: whether it went through without any error, or what
it raised; what it wrote; and the reporter afterwards. -/
structure Run where
  outcome : Except Raised Bool
  out : String := ""
  err : String := ""
  reporter : Reporter

/-- A run with what it raised settled by its reporter. What is left of it is
raised; otherwise the run has ended, but not without an error. -/
def Run.settled (run : Run) : Run :=
  match run.outcome with
  | .ok _ => run
  | .error raised =>
    let settled := run.reporter.settle raised
    { run with
      outcome := match settled.raised with
        | some left => .error left
        | none => .ok false
      err := run.err ++ settled.err
      reporter := settled.reporter }

def Grammar.SyntaxError.report (e : Grammar.SyntaxError) : Report where
  line := e.line
  message := e.message

def tokenDump (tokens : List Token) : String :=
  String.join (tokens.map fun t => t.text ++ "\n")

/-- Statements in parenthesized form, a line for each unless it has newlines
of its own. -/
def treeDump (statements : List Stmt) : String :=
  String.join (statements.map fun s => s.display ++ "\n")

def Stmt.isShowable (levels : Nat) (s : Stmt) : Bool := decide (s.height ≤ levels)

namespace Runner

def program (s : Runner) (tokens : List Token) : Grammar.Program :=
  Grammar.Program.ofTokens s.limits.nesting tokens

def machine (s : Runner) : Machine := Machine.initial s.limits.height

/-- The path under which text from the console runs. No file can have it. -/
def consolePath : String := "<in>"

/-- A runner for the console. Its reporter is not fatal, for a mistake must
not end the console. -/
def forConsole (path : String) (limits : Limits) (showTokens showTrees : Bool) (r : Reporter) :
    Runner × Reporter :=
  ({ path := path, limits := limits, showTokens := showTokens, showTrees := showTrees },
    { r with path := path, fatal := false })

/-- A runner for a file, unless it has the name of the console. -/
def forFile (path : String) (limits : Limits) (showTokens showTrees : Bool) (r : Reporter) :
    Except Diagnostic (Runner × Reporter) :=
  if path = consolePath then
    .error { message := [.plain "'", .strong path, .plain "' is a reserved filename"] }
  else
    .ok ({ path := path, limits := limits, showTokens := showTokens, showTrees := showTrees },
      { r with path := path })

def conclude (r : Reporter) (execution : Execution) : Run :=
  match execution.failure with
  | none =>
    { outcome := .ok !(r.hadError || r.hadRuntimeError)
      out := execution.output
      reporter := r }
  | some (.error e) =>
    let thrown := r.throw e.diagnostic
    { outcome := match thrown.raised with
        | some raised => .error raised
        | none => .ok false
      out := execution.output
      err := thrown.err
      reporter := thrown.reporter }
  | some failure =>
    { outcome := .error failure.raised, out := execution.output, reporter := r }

/-- The run of the statements that could be parsed, shown first if that is
asked for. A tree too high to be shown ends the run where it is met. -/
def runStatements (s : Runner) (r : Reporter) (statements : List Stmt) : Run :=
  let shown := if s.showTrees then statements.takeWhile (Stmt.isShowable s.limits.display) else []
  if s.showTrees && decide (shown.length < statements.length) then
    { outcome := .error .tooDeep, out := treeDump shown, reporter := r }
  else
    let ran := conclude r (s.machine.run statements)
    { ran with out := treeDump shown ++ ran.out }

/-- The run of the tokens of a text. Mistakes are reported before any
statement runs. -/
def runTokens (s : Runner) (r : Reporter) (tokens : List Token) : Run :=
  let program := s.program tokens
  let noted := r.reportAll (program.errors.map Grammar.SyntaxError.report)
  let ran : Run :=
    if program.tooDeep then { outcome := .error .tooDeep, reporter := noted.reporter }
    else s.runStatements noted.reporter program.statements
  { ran with
    out := (if s.showTokens then tokenDump tokens else "") ++ ran.out
    err := noted.err ++ ran.err }

def run (s : Runner) (r : Reporter) (source : String) : Run :=
  let ready := r.reset.register source
  let ran : Run :=
    match Token.scan source with
    | .error e =>
      let noted := ready.report e.line e.message
      { outcome := .ok false, err := noted.err, reporter := noted.reporter }
    | .ok tokens => s.runTokens ready tokens
  { ran with reporter := ran.reporter.forget }

def fileComplaint (path what : String) : Raised :=
  .complaint { message := [.plain "'", .strong path, .plain s!"' could not be {what}"] }

/-- The run of the file at the runner's path. The whole file is read and
decoded before anything runs. -/
def runFile (s : Runner) (files : Files) (r : Reporter) : Run :=
  if s.path.toList.contains '\x00' then { outcome := .error (.fault .nulInPath), reporter := r }
  else
    match files s.path with
    | none => { outcome := .error (fileComplaint s.path "opened"), reporter := r }
    | some bytes =>
      match String.fromUTF8? bytes with
      | none => { outcome := .error (fileComplaint s.path "decoded"), reporter := r }
      | some text => s.run r (String.ofList (Text.sourceOfFile text.toList))

end Runner

end MiniLox
