import MiniLox.CommandLine.Command

/-!
The program: it reads the arguments, the script and the lines of the console,
and writes what the command says. Nothing is decided here.
-/

namespace MiniLox

def emit (out err : String) : IO Unit := do
  let stdout ← IO.getStdout
  stdout.putStr out
  stdout.flush
  (← IO.getStderr).putStr err

def exitStatus : Except Raised Bool → UInt32
  | .error (.exit code) => UInt32.ofInt (code.getD 0)
  | .error _ => 1
  | .ok _ => 0

/-- What can be read under a path, and nothing under any other. -/
def readAt (path : String) : IO Files := do
  let found ← try some <$> IO.FS.readBinFile path catch _ => pure none
  return fun other => if other = path then found else none

partial def converse (runner : Runner) (r : Reporter) : IO UInt32 := do
  emit Console.prompt ""
  let line ← (← IO.getStdin).getLine
  let done := Console.step runner r (if line.isEmpty then Console.endOfInput else line)
  emit done.out done.err
  match done.outcome with
  | .ok false => converse runner done.reporter
  | outcome => return exitStatus outcome

def command (arguments : List String) : IO UInt32 := do
  let color ← (← IO.getStderr).isTty
  let finish (files : Files) : IO UInt32 := do
    let done := CommandLine.run .ample color files "" arguments
    emit done.out done.err
    return exitStatus done.outcome
  match CommandLine.request arguments with
  | .ok (.run settings) =>
    match settings.scripts with
    | [] =>
      let (runner, r) := CommandLine.console .ample { color := color } settings
      emit Console.intro ""
      converse runner r
    | path :: _ => finish (← readAt path)
  | _ => finish fun _ => none

end MiniLox

def main (arguments : List String) : IO UInt32 := MiniLox.command arguments
