import MiniLox.Runner
import MiniLox.Text.Classes

/-!
The console, which runs a program line by line. What a line asks for is
decided on its text alone: a blank line asks for nothing, a few words for
help or for the end, and everything else is a program to run. Each line runs
from scratch, and whatever it raises is settled by the reporter, so the next
line can follow.
-/

namespace MiniLox.Console

open Text

inductive Command where
  | nothing
  | help
  /-- The end of the console, after an empty line if the input has run out. -/
  | stop (inputEnded : Bool)
  | run (source : String)
deriving DecidableEq, Repr

/-- The word that stops the console in any mixture of cases. -/
def exitWord : List Char := ".exit".toList

/-- A line that is no word of the console: a program, or the word that stops
it. Only the letters of the word itself have to be compared, so folding the
Latin letters is enough. -/
def Command.ofSource (line : List Char) : Command :=
  if (strip line).map Char.toLower = exitWord then .stop false
  else .run (String.ofList line)

/-- A line with a question mark in front asks for help in short. -/
def expand : List Char → List Char
  | '?' :: rest => "help ".toList ++ rest
  | line => line

/-- What a line asks for. The words of the console stand alone on their line;
with anything behind them the line is a program. -/
def Command.ofLine (line : String) : Command :=
  let stripped := strip line.toList
  if stripped.isEmpty then .nothing
  else
    let expanded := expand stripped
    let word := String.ofList (expanded.takeWhile Lexeme.isWordPart)
    let rest := strip (expanded.dropWhile Lexeme.isWordPart)
    if !rest.isEmpty then .ofSource expanded
    else if word = "help" then .help
    else if word = "exit" then .stop false
    else if word = "EOF" then .stop true
    else .ofSource expanded

def intro : String :=
  "Lox interpreter :: Python backend\n"
    ++ "Type '.exit' to quit, '?' or 'help' for more information.\n"

def prompt : String := "> "

def helpText : String :=
  "Welcome to the lox interpreter!\n\n"
    ++ "Lox is a small dynamically typed scripting language. This interpreter supports \n"
    ++ "numbers, strings, booleans and nil, arithmetic, comparison and equality \n"
    ++ "operators, print statements and variable declarations.\n\n"
    ++ "Try it out by typing 'print 1 + 2;'. Then try 'print \"a\" + \"b\";'. Each line is \n"
    ++ "run on its own, so declare and use a variable on the same line: \n"
    ++ "'var x = 2; print x * x;'. Type '.exit' to quit.\n"

/-- Carries out what a line asks for. The outcome says whether the console is
to stop, or what a program raised that could not be settled. -/
def perform (runner : Runner) (r : Reporter) : Command → Run
  | .nothing => { outcome := .ok false, reporter := r }
  | .help => { outcome := .ok false, out := helpText, reporter := r }
  | .stop inputEnded =>
    { outcome := .ok true, out := if inputEnded then "\n" else "", reporter := r }
  | .run source =>
    let ran := (runner.run r source).settled
    { ran with outcome := ran.outcome.map fun _ => false }

def step (runner : Runner) (r : Reporter) (line : String) : Run :=
  perform runner r (.ofLine line)

def endOfInput : String := "EOF"

/-- Carries out lines until one asks for the end or raises something, with a
prompt before each. At the end of the input one more line stands for it. -/
def loop (runner : Runner) (r : Reporter) : List String → Run
  | [] =>
    let ended := step runner r endOfInput
    { ended with out := prompt ++ ended.out }
  | line :: lines =>
    let done := step runner r line
    match done.outcome with
    | .ok false =>
      let rest := loop runner done.reporter lines
      { rest with out := prompt ++ done.out ++ rest.out, err := done.err ++ rest.err }
    | _ => { done with out := prompt ++ done.out }

/-- The lines of an input. What follows the last newline is a line only if
there is something. -/
def inputLines (input : String) : List String :=
  let pieces := lines input.toList
  (pieces.dropLast ++ (pieces.getLast?.toList.filter (· ≠ []))).map String.ofList

def session (runner : Runner) (r : Reporter) (input : String) : Run :=
  let ran := loop runner r (inputLines input)
  { ran with out := intro ++ ran.out }

end MiniLox.Console
