import MiniLox.Grammar.Expression

/-!
Programs: the statements of a list of tokens, with recovery. After a mistake
the rest of the statement is passed over, up to a place where a statement
probably starts: just behind a semicolon, or right before a keyword that
starts a statement. The offending token itself is always passed over. So a
list of tokens falls into parts, each a statement or a mistake, and every
part takes at least one token.
-/

namespace MiniLox.Grammar

structure SyntaxError where
  token : Token
  expected : Expectation

namespace SyntaxError

def line (e : SyntaxError) : Int := e.token.line

def message (e : SyntaxError) : String :=
  let place := if e.token.kind = .endOfText then "at end" else s!"at '{e.token.lexeme}'"
  place ++ ": " ++ e.expected.message

end SyntaxError

/-- The tokens from the next likely start of a statement on, given the
offending token and what follows it. -/
def resume : List Token → List Token
  | [] => []
  | t :: ts =>
    if t.kind = .semicolon || (ts.head?.map Token.kind).any Kind.startsStatement then ts
    else resume ts

theorem resume_length_lt (t : Token) (ts : List Token) :
    (resume (t :: ts)).length < (t :: ts).length := by
  induction ts generalizing t with
  | nil => simp [resume]
  | cons u us ih =>
    rw [resume]
    split
    · simp
    · have := ih u
      simp only [List.length_cons] at *
      omega

inductive Part where
  | statement (s : Stmt)
  | mistake (e : SyntaxError)

/-- What was made of a list of tokens. If the nesting was too deep somewhere,
the parts are those before that statement. -/
structure Program where
  parts : List Part
  tooDeep : Bool

namespace Program

def statements (p : Program) : List Stmt :=
  p.parts.filterMap fun
    | .statement s => some s
    | .mistake _ => none

/-- The mistakes, in the order in which they were noticed. -/
def errors (p : Program) : List SyntaxError :=
  p.parts.filterMap fun
    | .statement _ => none
    | .mistake e => some e

def cons (part : Part) (p : Program) : Program := { p with parts := part :: p.parts }

def ofTokensBefore (last : Token) (levels : Nat) : List Token → Program
  | [] => { parts := [], tooDeep := false }
  | t :: ts =>
    match _h : (statement levels).read (t :: ts) with
    | .ok (s, rest) => (ofTokensBefore last levels rest).cons (.statement s)
    | .error (.mismatch rest expected) =>
      let error : SyntaxError := { token := rest.headD last, expected := expected }
      (ofTokensBefore last levels (resume rest)).cons (.mistake error)
    | .error .tooDeep => { parts := [], tooDeep := true }
termination_by ts => ts.length
decreasing_by
  · exact (statement levels).rest_lt _h
  · have := (statement levels).mismatch_le _h
    cases rest with
    | nil => simp [resume]
    | cons u us => exact Nat.lt_of_lt_of_le (resume_length_lt u us) this

/-- The token that ends a list of tokens: the first one that stands for the
end of the text. -/
def lastOf (tokens : List Token) : Token :=
  (tokens.find? fun t => t.kind == .endOfText).getD
    { kind := .endOfText, lexeme := "", line := 0 }

/-- The program of a list of tokens up to the first that stands for the end
of the text. A statement may be nested up to the given number of levels. -/
def ofTokens (levels : Nat) (tokens : List Token) : Program :=
  ofTokensBefore (lastOf tokens) levels (tokens.takeWhile fun t => t.kind != .endOfText)

end Program

end MiniLox.Grammar
