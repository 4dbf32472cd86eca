/-!
Messages with emphasis. A message is a list of spans, and each has two forms:
its text, and the form in which it goes to a terminal with colours. Without
colours only the text is left.
-/

namespace MiniLox.Text

/-- How a span stands out: not at all, in bold, or in bold red. -/
inductive Style where
  | plain
  | strong
  | alert
deriving DecidableEq, Repr

def Style.codes : Style → String
  | plain => ""
  | strong => "\x1b[1m"
  | alert => "\x1b[1m\x1b[31m"

/-- A text on a terminal with colours. An emphasised text is switched on and
off again even if it is empty. -/
def Style.apply (style : Style) (text : String) : String :=
  if style = .plain then text else style.codes ++ text ++ "\x1b[0m"

structure Span where
  text : String
  styled : String
deriving DecidableEq, Repr

def Span.render (color : Bool) (s : Span) : String := if color then s.styled else s.text

def Span.ofStyle (style : Style) (text : String) : Span where
  text := text
  styled := style.apply text

abbrev Message := List Span

def Span.plain (text : String) : Span := .ofStyle .plain text

def Span.strong (text : String) : Span := .ofStyle .strong text

def Span.alert (text : String) : Span := .ofStyle .alert text

def Message.text (m : Message) : String := String.join (m.map Span.text)

def Message.render (color : Bool) (m : Message) : String := String.join (m.map (Span.render color))

@[simp] theorem Message.text_nil : Message.text [] = "" := rfl

theorem Message.text_cons (s : Span) (m : Message) :
    Message.text (s :: m) = s.text ++ Message.text m := by
  simp [Message.text]

theorem Message.text_append (m n : Message) :
    Message.text (m ++ n) = Message.text m ++ Message.text n := by
  rw [Message.text, List.map_append, String.join_append]
  rfl

@[simp] theorem Span.text_plain (text : String) : (Span.plain text).text = text := rfl

@[simp] theorem Span.text_strong (text : String) : (Span.strong text).text = text := rfl

@[simp] theorem Span.text_alert (text : String) : (Span.alert text).text = text := rfl

@[simp] theorem Span.render_false : Span.render false = Span.text := by
  funext s
  simp [Span.render]

@[simp] theorem Message.render_false : Message.render false = Message.text := by
  funext m
  simp [Message.render, Message.text]

end MiniLox.Text
