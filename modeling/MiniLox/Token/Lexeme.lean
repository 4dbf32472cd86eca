import MiniLox.Token.Basic

/-!
Lexemes: how a program text falls apart. A text is a sequence of *items*,
each a token, a single blank or a comment, and at every place the longest
possible item is taken. `Lexeme.next` takes one item off the front of a text
and gives the rest along with the proof that nothing was lost in between, so
whatever walks over a text item by item ends.
-/

namespace MiniLox

namespace Lexeme

/-- The decimal digits. No other script has digits here. -/
def isDigit (c : Char) : Bool := decide ('0' ≤ c ∧ c ≤ '9')

/-- The letters that an identifier may start with: the Latin ones and the
underscore. -/
def isLetter (c : Char) : Bool :=
  decide ('a' ≤ c ∧ c ≤ 'z') || decide ('A' ≤ c ∧ c ≤ 'Z') || c == '_'

def isWordPart (c : Char) : Bool := isDigit c || isLetter c

def isBlank (c : Char) : Bool := c == ' ' || c == '\r' || c == '\t' || c == '\n'

/-- The tokens of one character that start no longer token. -/
def symbol? : Char → Option Kind
  | '(' => some .leftParen
  | ')' => some .rightParen
  | '\x7b' => some .leftBrace
  | '\x7d' => some .rightBrace
  | ',' => some .comma
  | '.' => some .dot
  | '-' => some .minus
  | '+' => some .plus
  | ';' => some .semicolon
  | '*' => some .star
  | _ => none

/-- The characters that make a token alone and another one before an equality
sign: the kind alone comes first. -/
def pair? : Char → Option (Kind × Kind)
  | '!' => some (.bang, .bangEqual)
  | '=' => some (.equal, .equalEqual)
  | '<' => some (.less, .lessEqual)
  | '>' => some (.greater, .greaterEqual)
  | _ => none

end Lexeme

inductive Lexeme where
  | blank
  | comment
  | token (kind : Kind) (literal : Option Value)

namespace Lexeme

/-- An item at the front of a text: what it is, the characters it covers and
the characters after it. -/
structure Item (s : List Char) where
  lexeme : Lexeme
  covered : List Char
  rest : List Char
  append_eq : covered ++ rest = s
  covered_ne : covered ≠ []

theorem Item.rest_length_lt {s : List Char} (item : Item s) :
    item.rest.length < s.length := by
  have := congrArg List.length item.append_eq
  have := List.length_pos_iff.2 item.covered_ne
  simp only [List.length_append] at *
  omega

inductive Fault where
  | unexpected (c : Char)
  | unterminated
deriving DecidableEq, Repr

def one (lexeme : Lexeme) (c : Char) (cs : List Char) : Item (c :: cs) where
  lexeme := lexeme
  covered := [c]
  rest := cs
  append_eq := rfl
  covered_ne := by simp

def oneOrTwo (alone paired : Lexeme) (expected : Char) (c : Char) :
    (cs : List Char) → Item (c :: cs)
  | [] => one alone c []
  | d :: cs =>
    if d = expected then
      { lexeme := paired, covered := [c, d], rest := cs, append_eq := rfl, covered_ne := by simp }
    else one alone c (d :: cs)

def whilst (accepts : Char → Bool) (lexeme : List Char → Lexeme) (c : Char) (cs : List Char) :
    Item (c :: cs) where
  lexeme := lexeme (c :: cs.takeWhile accepts)
  covered := c :: cs.takeWhile accepts
  rest := cs.dropWhile accepts
  append_eq := by simp
  covered_ne := by simp

def word (c : Char) (cs : List Char) : Item (c :: cs) :=
  whilst isWordPart (fun covered => .token (.ofWord (String.ofList covered)) none) c cs

def numeral (whole fraction : List Char) : Lexeme :=
  .token .number (some (.number (Decimal.ofDigits whole fraction).toFloat))

/-- The number that starts with a digit. A point belongs to it only if a
digit follows the point. -/
def number (c : Char) (cs : List Char) : Item (c :: cs) :=
  let whole := c :: cs.takeWhile isDigit
  match h : cs.dropWhile isDigit with
  | '.' :: d :: rest =>
    if isDigit d then
      let fraction := d :: rest.takeWhile isDigit
      { lexeme := numeral whole fraction
        covered := whole ++ '.' :: fraction
        rest := rest.dropWhile isDigit
        append_eq := by
          have := List.takeWhile_append_dropWhile (p := isDigit) (l := cs)
          simp [whole, fraction, ← h]
        covered_ne := by simp [whole] }
    else whilst isDigit (numeral · []) c cs
  | _ => whilst isDigit (numeral · []) c cs

/-- The string that starts with the quote before `cs`: it ends at the next
quote, whatever lies between. -/
def quoted (cs : List Char) : Except Fault (Item ('"' :: cs)) :=
  let body := cs.takeWhile (· ≠ '"')
  match h : cs.dropWhile (· ≠ '"') with
  | [] => .error .unterminated
  | quote :: rest =>
    .ok
      { lexeme := .token .string (some (.string (String.ofList body)))
        covered := '"' :: body ++ [quote]
        rest := rest
        append_eq := by
          have := List.takeWhile_append_dropWhile (p := fun c => decide (c ≠ '"')) (l := cs)
          rw [h] at this
          simpa [body] using this
        covered_ne := by simp }

/-- What starts with a slash: a comment up to the end of the line, or the
slash alone. -/
def slash : (cs : List Char) → Item ('/' :: cs)
  | '/' :: cs =>
    { lexeme := .comment
      covered := '/' :: '/' :: cs.takeWhile (· ≠ '\n')
      rest := cs.dropWhile (· ≠ '\n')
      append_eq := by simp
      covered_ne := by simp }
  | cs => one (.token .slash none) '/' cs

def next : (c : Char) → (cs : List Char) → Except Fault (Item (c :: cs))
  | '"', cs => quoted cs
  | '/', cs => .ok (slash cs)
  | c, cs =>
    if isBlank c then .ok (one .blank c cs)
    else if isDigit c then .ok (number c cs)
    else if isLetter c then .ok (word c cs)
    else
      match symbol? c, pair? c with
      | some kind, _ => .ok (one (.token kind none) c cs)
      | none, some (alone, paired) =>
        .ok (oneOrTwo (.token alone none) (.token paired none) '=' c cs)
      | none, none => .error (.unexpected c)

end Lexeme

end MiniLox
