import MiniLox.Report.Diagnostic
import MiniLox.Text.Pieces

/-!
The reporter, where all messages about a program go. It writes them to the
error stream, keeps a record of the mistakes that were found before a program
ran, and remembers for the current run whether anything was wrong. A message
about a token is followed by the line of the source with the token
underlined, as long as the source is at hand.

A fatal reporter answers a thrown diagnostic with an exit; one that is not
lets the work go on.
-/

namespace MiniLox

open Text

structure Report where
  line : Int
  message : String
deriving DecidableEq, Repr

structure Reporter where
  path : String := "<in>"
  fatal : Bool := true
  color : Bool := false
  reported : List Report := []
  hadError : Bool := false
  hadRuntimeError : Bool := false
  /-- The lines of the source of the current run, none between runs. -/
  source : List (List Char) := []

/-- How a reporter answers: what it is afterwards, what went to the error
stream, and what it raises, if anything. -/
structure Response where
  reporter : Reporter
  err : String := ""
  raised : Option Raised := none

namespace Reporter

def register (r : Reporter) (source : String) : Reporter :=
  { r with source := lines source.toList }

def forget (r : Reporter) : Reporter := { r with source := [] }

/-- Clears the flags of the last run. The record stays. -/
def reset (r : Reporter) : Reporter := { r with hadError := false, hadRuntimeError := false }

def place (r : Reporter) (line : Int) : Span := .strong s!"{r.path}:{line}: "

def errorMark : Span := .alert "error: "

def report (r : Reporter) (line : Int) (message : String) : Response where
  reporter :=
    { r with hadError := true, reported := r.reported ++ [{ line := line, message := message }] }
  err := Message.render r.color [r.place line, errorMark, .plain (message ++ "\n")]

def reportAll (r : Reporter) : List Report → Response
  | [] => { reporter := r }
  | m :: ms =>
    let first := r.report m.line m.message
    let rest := first.reporter.reportAll ms
    { rest with err := first.err ++ rest.err }

/-! ### Pointing at a token -/

/-- A line with the stretch between two bounds highlighted, and below it the
stretch underlined. At least one character is underlined. -/
def underline (line : List Char) (start stop : Int) : Message :=
  let stop := max stop (start + 1)
  let marks := '^' :: List.replicate (stop - start - 1).toNat '~'
  [.plain ("  " ++ String.ofList (before line start)),
    .alert (String.ofList (between line start stop)),
    .plain (String.ofList (after line stop) ++ "\n"),
    .plain ("  " ++ String.ofList (List.replicate start.toNat ' ')),
    .alert (String.ofList marks)]

def rowLimit : Nat := 0xFFFFFFFF

/-- What is wrong with the length of a row. A number that does not fit in
sixty-four bits is no length at all, not even a negative one. -/
def rowFault? (length : Int) : Option Fault :=
  if length < -0x8000000000000000 ∨ 0x7FFFFFFFFFFFFFFF < length then some .lengthTooLarge
  else if rowLimit < length then some .outOfMemory
  else none

/-- A line underlined between any two bounds, unless the blanks or the marks
below it would be too many. -/
def underline? (line : List Char) (start stop : Int) : Except Fault Message :=
  match (rowFault? start).or (rowFault? (max stop (start + 1) - start - 1)) with
  | some fault => .error fault
  | none => .ok (underline line start stop)

/-- Where a token stands in a line: at its column, or else where its text
first occurs. Column minus one is no place even if the text is found there. -/
def startIn? (token : Token) (line : List Char) : Option Int :=
  let lexeme := token.lexeme.toList
  if lexeme.isPrefixOf (after line token.column) then
    if token.column = -1 then none else some token.column
  else (firstIndex? lexeme line).map Int.ofNat

def lineOf? (r : Reporter) (token : Token) : Option (List Char) :=
  if 0 < token.line then r.source[(token.line - 1).toNat]? else none

/-- The line of a token and where the token stands in it. A token without text
stands nowhere. -/
def placeOf? (r : Reporter) (token : Token) : Option (List Char × Int) :=
  if token.lexeme.isEmpty then none
  else
    match r.lineOf? token with
    | none => none
    | some line => (startIn? token line).map fun start => (line, start)

def pointer (r : Reporter) (token : Token) : Message :=
  match r.placeOf? token with
  | none => []
  | some (line, start) => underline line start (start + token.lexeme.length) ++ [.plain "\n"]

/-! ### Throwing -/

def written (r : Reporter) (d : Diagnostic) : Message :=
  (d.line.map r.place).toList ++ (if d.internal then [.alert "[internal] "] else [])
    ++ errorMark :: d.message ++ .plain "\n" :: (d.token.map r.pointer).getD []

/-- Writes a diagnostic. A fatal reporter then exits. -/
def throw (r : Reporter) (d : Diagnostic) : Response where
  reporter := { r with hadRuntimeError := true }
  err := Message.render r.color (r.written d)
  raised := if r.fatal then some (.exit (some 1)) else none

/-- Deals with what was raised by some work: everything is thrown as a
diagnostic and is settled by that, except that an exit is carried out and a
fault is passed on. -/
def settle (r : Reporter) : Raised → Response
  | .complaint d => r.throw d
  | .tooDeep =>
    r.throw
      { message :=
          [.plain "maximum recursion depth exceeded, expression is nested too deeply"] }
  | .interrupted => r.throw { message := [.plain "keyboard interrupt"] }
  | .exit code => { reporter := r, raised := some (.exit code) }
  | .fault f =>
    let thrown := r.throw f.diagnostic
    { thrown with raised := thrown.raised.or (some (.fault f)) }

/-! ### What does not come from a run

The tokens of a run have columns from zero on, and a run throws nothing but
diagnostics. What is put together by hand need not be like that. -/

def placeFault? (r : Reporter) (token : Token) : Option Fault :=
  match r.placeOf? token with
  | none => none
  | some (_, start) => rowFault? start

/-- Throws a diagnostic about any token. If its place cannot be drawn, it is
written without its line, and the fault is raised. -/
def throwAny (r : Reporter) (d : Diagnostic) : Response :=
  match d.token.bind r.placeFault? with
  | none => r.throw d
  | some fault => { r.throw { d with token := none } with raised := some (.fault fault) }

/-- Throws whatever was raised. Without a line to write about, throwing is a
fault itself. -/
def throwRaised (r : Reporter) : Raised → Response
  | .complaint d => r.throwAny d
  | other =>
    { reporter := { r with hadRuntimeError := true }
      raised := some (.fault (.lacking other.name "line")) }

def settleRaised (r : Reporter) : Raised → Response
  | .complaint d => r.throwAny d
  | other => r.settle other

theorem throwAny_of_placeOf?_eq_none {r : Reporter} {d : Diagnostic}
    (h : ∀ token ∈ d.token, r.placeOf? token = none) : r.throwAny d = r.throw d := by
  unfold throwAny
  cases hd : d.token with
  | none => rfl
  | some token => simp [placeFault?, h token (by simp [hd])]

end Reporter

end MiniLox
