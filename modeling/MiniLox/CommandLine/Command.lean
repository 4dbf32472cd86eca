import MiniLox.CommandLine.Arguments
import MiniLox.Console

/-!
The command as a whole: one script is run and the exit status tells whether
it went through without any error; without a script the console starts; more
than one script is a mistake in the use of the command, and nothing runs.
Whatever is raised on the way is settled by a fatal reporter.
-/

namespace MiniLox.CommandLine

def usage : String := "usage: lox [-h] [--tokens] [--ast] [script ...]\n"

def helpText : String :=
  usage
    ++ "\npositional arguments:\n"
    ++ "  script      file to interpret and run (if empty, goes to command-line mode)\n"
    ++ "\noptions:\n"
    ++ "  -h, --help  show this help message and exit\n"
    ++ "  --tokens    print tokens of each run before parsing\n"
    ++ "  --ast       print statements of each run before interpreting\n"

/-- What is said to more than one script. -/
def scriptUsage : String := "usage: lox [script]\n"

/-- The run of a single script. A run with an error ends in an exit. -/
def runScript (limits : Limits) (files : Files) (r : Reporter) (settings : Settings)
    (path : String) : Run :=
  match Runner.forFile path limits settings.showTokens settings.showTrees r with
  | .error d => { outcome := .error (.complaint d), reporter := r }
  | .ok (runner, r) =>
    let ran := runner.runFile files r
    match ran.outcome with
    | .ok false => { ran with outcome := .error (.exit (some 1)) }
    | _ => ran

def console (limits : Limits) (r : Reporter) (settings : Settings) : Runner × Reporter :=
  Runner.forConsole Runner.consolePath limits settings.showTokens settings.showTrees r

/-- The command without what settles its errors. -/
def work (limits : Limits) (files : Files) (input : String) (r : Reporter)
    (arguments : List String) : Run :=
  match request arguments with
  | .error e =>
    { outcome := .error (.exit (some 2))
      err := usage ++ "lox: error: " ++ e.message ++ "\n"
      reporter := r }
  | .ok .help => { outcome := .error (.exit (some 0)), out := helpText, reporter := r }
  | .ok (.run settings) =>
    match settings.scripts with
    | [] =>
      let (runner, r) := console limits r settings
      Console.session runner r input
    | [path] => runScript limits files r settings path
    | _ => { outcome := .error (.exit (some 64)), out := scriptUsage, reporter := r }

/-- The command, given what can be read under each path and the whole of the
standard input. -/
def run (limits : Limits) (color : Bool) (files : Files) (input : String)
    (arguments : List String) : Run :=
  (work limits files input { color := color } arguments).settled

end MiniLox.CommandLine
