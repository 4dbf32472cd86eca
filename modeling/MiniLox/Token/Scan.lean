import MiniLox.Token.Lexeme

/-!
From a text to its tokens. The text is taken apart item by item; blanks and
comments only move the position. A token is stamped with the line on which
its last character stands and the column of its first character, and the list
is closed by a token for the end of the text. The first place where no item
starts ends the scan, and no token is given.
-/

namespace MiniLox

/-- A place in a text: a line, counted from one, and a column, counted from
zero. -/
structure Position where
  line : Nat := 1
  column : Nat := 0
deriving DecidableEq, Repr

namespace Position

def step (p : Position) (c : Char) : Position :=
  if c = '\n' then { line := p.line + 1, column := 0 }
  else { p with column := p.column + 1 }

def advance (p : Position) (s : List Char) : Position := s.foldl step p

@[simp] theorem advance_nil (p : Position) : p.advance [] = p := rfl

@[simp] theorem advance_cons (p : Position) (c : Char) (s : List Char) :
    p.advance (c :: s) = (p.step c).advance s := rfl

@[simp] theorem advance_append (p : Position) (s t : List Char) :
    p.advance (s ++ t) = (p.advance s).advance t := by
  simp [advance]

end Position

structure ScanError where
  fault : Lexeme.Fault
  line : Nat
deriving DecidableEq, Repr

namespace ScanError

def message (e : ScanError) : String :=
  match e.fault with
  | .unexpected c => s!"Unexpected character '{c}'."
  | .unterminated => "Unterminated string."

/-- The error for a fault at the front of a text. A string that is never
closed is noticed at the end of the text. -/
def ofFault (fault : Lexeme.Fault) (start : Position) (s : List Char) : ScanError where
  fault := fault
  line :=
    match fault with
    | .unexpected _ => start.line
    | .unterminated => (start.advance s).line

end ScanError

namespace Token

def ofItem? {s : List Char} (start : Position) (item : Lexeme.Item s) : Option Token :=
  match item.lexeme with
  | .blank => none
  | .comment => none
  | .token kind literal =>
    some
      { kind := kind
        lexeme := String.ofList item.covered
        literal := literal
        line := (start.advance item.covered).line
        column := start.column }

def atEnd (p : Position) : Token where
  kind := .endOfText
  lexeme := ""
  line := p.line
  column := p.column

def scanFrom (start : Position) : List Char → Except ScanError (List Token)
  | [] => .ok [atEnd start]
  | c :: cs =>
    match Lexeme.next c cs with
    | .error fault => .error (.ofFault fault start (c :: cs))
    | .ok item =>
      match scanFrom (start.advance item.covered) item.rest with
      | .error e => .error e
      | .ok tokens => .ok ((ofItem? start item).toList ++ tokens)
termination_by s => s.length
decreasing_by exact item.rest_length_lt

/-- The tokens of a text, the one for its end included. -/
def scan (source : String) : Except ScanError (List Token) := scanFrom {} source.toList

end Token

end MiniLox
