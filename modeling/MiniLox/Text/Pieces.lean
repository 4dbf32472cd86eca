/-!
Pieces of a text: its lines, and stretches of it by bounds.

A source text has lines between its newlines; a file has lines that end in a
newline, a carriage return or both, and a last line that may lack an end. When
a file is read all of these ends come as newlines. Its lines are taken one
after another with their ends, the ends are cut off, and the lines are joined
by newlines again.

The bounds of a stretch may be negative: a negative bound counts from the end,
and a bound beyond either end is that end.
-/

namespace MiniLox.Text

/-! ### Lines -/

/-- The pieces of a text between its newlines, at least one. -/
def lines (s : List Char) : List (List Char) := s.splitOn '\n'

/-- A text with every end of a line made into a newline: a carriage return with the newline
behind it, and any other carriage return. -/
def unified : List Char → List Char
  | [] => []
  | '\r' :: '\n' :: cs => '\n' :: unified cs
  | '\r' :: cs => '\n' :: unified cs
  | c :: cs => c :: unified cs

/-- A character in front of the first of some lines, or as the only line. -/
def prepend (c : Char) : List (List Char) → List (List Char)
  | [] => [[c]]
  | line :: more => (c :: line) :: more

/-- The lines of a text, each with the newline at its end. After the last
newline there is no line unless some text follows. -/
def endedLines : List Char → List (List Char)
  | [] => []
  | '\n' :: cs => ['\n'] :: endedLines cs
  | c :: cs => prepend c (endedLines cs)

def isLineEnd (c : Char) : Bool := c == '\r' || c == '\n'

/-- A line without all the newlines and carriage returns at its end. -/
def withoutEnd (line : List Char) : List Char := (line.reverse.dropWhile isLineEnd).reverse

def fileLines (s : List Char) : List (List Char) := (endedLines (unified s)).map withoutEnd

def sourceOfFile (s : List Char) : List Char := ['\n'].intercalate (fileLines s)

/-! ### Stretches -/

variable {α : Type}

def bound (length : Nat) (i : Int) : Nat :=
  if i < 0 then (i + length).toNat else min i.toNat length

def before (l : List α) (stop : Int) : List α := l.take (bound l.length stop)

def after (l : List α) (start : Int) : List α := l.drop (bound l.length start)

/-- What lies between two bounds, nothing if they are not in order. -/
def between (l : List α) (start stop : Int) : List α :=
  (before l stop).drop (bound l.length start)

theorem bound_natCast {length i : Nat} (h : i ≤ length) : bound length (i : Int) = i := by
  rw [bound, if_neg (by omega)]
  omega

/-! ### Bounds at the joints of a list -/

theorem before_append (l rest : List α) : before (l ++ rest) (l.length : Int) = l := by
  rw [before, bound_natCast (by simp), List.take_left]

theorem after_append (l rest : List α) : after (l ++ rest) (l.length : Int) = rest := by
  rw [after, bound_natCast (by simp), List.drop_left]

theorem between_append (l stretch rest : List α) :
    between (l ++ stretch ++ rest) (l.length : Int) ((l ++ stretch).length : Int) = stretch := by
  rw [between, before_append, bound_natCast (by simp), List.drop_left]

def firstIndex? [BEq α] (stretch : List α) : List α → Option Nat
  | [] => if stretch.isEmpty then some 0 else none
  | a :: l =>
    if stretch.isPrefixOf (a :: l) then some 0 else (firstIndex? stretch l).map (· + 1)

end MiniLox.Text
