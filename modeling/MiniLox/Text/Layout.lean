import MiniLox.Text.Classes

/-!
How a text is laid out in a message template: how much of it is kept, how
wide a stretch it takes, on which side of the stretch it stands, and what
fills the rest. A layout is written in a form that numbers and texts share.
What only makes sense for numbers, such as a sign or marks between thousands,
is understood and refused.
-/

namespace MiniLox.Text

inductive Align where
  | left
  | center
  | right
deriving DecidableEq, Repr

/-- How much of a gap lies before the text. Of a gap that cannot be halved the
larger part lies behind a centred text. -/
def Align.before (gap : Nat) : Align → Nat
  | .left => 0
  | .center => gap / 2
  | .right => gap

theorem Align.before_le (gap : Nat) (align : Align) : align.before gap ≤ gap := by
  cases align with
  | left => exact Nat.zero_le gap
  | center => exact Nat.div_le_self gap 2
  | right => exact Nat.le_refl gap

structure Layout where
  fill : Char := ' '
  align : Align := .left
  width : Nat := 0
  /-- How many characters are kept, if not all of them. -/
  kept : Option Nat := none
deriving DecidableEq, Repr

namespace Layout

inductive Fault where
  | tooManyDigits
  | bothMarks
  | missingPrecision
  | invalid (layout : String)
  | marked (mark code : Char)
  | unknownCode (code : Char)
  | signed
  | spaced
  | negativeZero
  | alternate
  | apart
  | tooWide
deriving DecidableEq, Repr

/-- A character in a message: as it is between the blank and some limit, and
elsewhere by its code point. -/
def showBelow (limit : Nat) (c : Char) : String :=
  if ' ' < c ∧ c.toNat < limit then c.toString
  else "\\x" ++ String.ofList (Nat.toDigits 16 c.toNat)

/-- A code in a message. The last of the Latin characters, which deletes, is
shown as it is. -/
def showCode (c : Char) : String := showBelow 128 c

def Fault.message : Fault → String
  | tooManyDigits => "Too many decimal digits in format string"
  | bothMarks => "Cannot specify both ',' and '_'."
  | missingPrecision => "Format specifier missing precision"
  | invalid layout => s!"Invalid format specifier '{layout}' for object of type 'str'"
  | marked mark code => s!"Cannot specify '{mark}' with '{showCode code}'."
  | unknownCode code => s!"Unknown format code '{showCode code}' for object of type 'str'"
  | signed => "Sign not allowed in string format specifier"
  | spaced => "Space not allowed in string format specifier"
  | negativeZero => "Negative zero coercion (z) not allowed in string format specifier"
  | alternate => "Alternate form (#) not allowed in string format specifier"
  | apart => "'=' alignment not allowed in string format specifier"
  | tooWide => ""

/-! ### Laying out -/

def keep (l : Layout) (s : List Char) : List Char := (l.kept.map s.take).getD s

def apply (l : Layout) (s : List Char) : List Char :=
  let gap := l.width - (l.keep s).length
  let before := l.align.before gap
  List.replicate before l.fill ++ l.keep s ++ List.replicate (gap - before) l.fill

/-- A text takes the width asked for, or more if what is kept of it is
longer. -/
theorem length_apply (l : Layout) (s : List Char) :
    (l.apply s).length = max l.width (l.keep s).length := by
  have := Align.before_le (l.width - (l.keep s).length) l.align
  simp only [apply, List.length_append, List.length_replicate]
  omega

/-! ### Reading a layout -/

/-- The marks of alignment. The equality sign puts the fill between a sign
and the digits of a number. -/
def alignments : List (Char × Option Align) :=
  [('<', some .left), ('^', some .center), ('>', some .right), ('=', none)]

structure Parts where
  fill : Option Char
  align : Option (Option Align)
  sign : Option Char
  negativeZero : Bool
  alternate : Bool
  zeroFill : Bool
  width : Option Nat
  mark : Option Char
  precision : Option Nat
  code : Option Char

/-- The fill and the alignment at the front. A fill only stands before a mark
of alignment. -/
def takeAlign (s : List Char) : Option Char × Option (Option Align) × List Char :=
  match s with
  | [] => (none, none, [])
  | c :: cs =>
    match cs.head?.bind fun next => alignments.lookup next with
    | some align => (some c, some align, cs.tail)
    | none =>
      match alignments.lookup c with
      | some align => (none, some align, cs)
      | none => (none, none, s)

def takeIf (accepts : Char → Bool) : List Char → Option Char × List Char
  | [] => (none, [])
  | c :: cs => if accepts c then (some c, cs) else (none, c :: cs)

/-- The greatest number that a template may hold. -/
def greatestNumber : Nat := 0x7FFFFFFFFFFFFFFF

def takeNumber (s : List Char) : Except Fault (Option Nat × List Char) :=
  let digits := s.takeWhile isDigit
  if greatestNumber < numberOf digits then .error .tooManyDigits
  else .ok (if digits.isEmpty then none else some (numberOf digits), s.dropWhile isDigit)

/-- The mark between thousands at the front. There are two, and only one may
be given. -/
def takeMark (s : List Char) : Except Fault (Option Char × List Char) :=
  match s with
  | ',' :: '_' :: _ => .error .bothMarks
  | '_' :: ',' :: _ => .error .bothMarks
  | ',' :: cs => .ok (some ',', cs)
  | '_' :: cs => .ok (some '_', cs)
  | _ => .ok (none, s)

def takePrecision : List Char → Except Fault (Option Nat × List Char)
  | '.' :: cs =>
    match takeNumber cs with
    | .error fault => .error fault
    | .ok (none, _) => .error .missingPrecision
    | .ok (some n, rest) => .ok (some n, rest)
  | s => .ok (none, s)

def Parts.read (s : List Char) : Except Fault Parts := do
  let (fill, align, rest) := takeAlign s
  let (sign, rest) := takeIf (fun c => c == ' ' || c == '+' || c == '-') rest
  let (negativeZero, rest) := takeIf (· == 'z') rest
  let (alternate, rest) := takeIf (· == '#') rest
  let (zeroFill, rest) := takeIf (fun c => fill.isNone && c == '0') rest
  let (width, rest) ← takeNumber rest
  let (mark, rest) ← takeMark rest
  let (precision, rest) ← takePrecision rest
  match rest with
  | _ :: _ :: _ => .error (.invalid (String.ofList s))
  | rest =>
    .ok
      { fill, align, sign, width, mark, precision
        negativeZero := negativeZero.isSome
        alternate := alternate.isSome
        zeroFill := zeroFill.isSome
        code := rest.head? }

def takesMark (mark code : Char) : Bool :=
  ['d', 'e', 'f', 'g', 'E', 'G', '%', 'F', '\x00'].contains code
    || mark == '_' && ['b', 'o', 'x', 'X'].contains code

/-- The code of texts, which is also meant if no code is given. -/
def textCode : Char := 's'

def widthLimit : Nat := 0xFFFFFFFF

def Parts.fault? (p : Parts) : Option Fault :=
  let code := p.code.getD textCode
  match p.mark.filter fun mark => !takesMark mark code with
  | some mark => some (.marked mark code)
  | none =>
    if code ≠ textCode then some (.unknownCode code)
    else if p.sign = some ' ' then some .spaced
    else if p.sign.isSome then some .signed
    else if p.negativeZero then some .negativeZero
    else if p.alternate then some .alternate
    else if p.align = some none then some .apart
    else if widthLimit < p.width.getD 0 then some .tooWide
    else none

def read (s : List Char) : Except Fault Layout :=
  match Parts.read s with
  | .error fault => .error fault
  | .ok parts =>
    match parts.fault? with
    | some fault => .error fault
    | none =>
      .ok
        { fill := parts.fill.getD (if parts.zeroFill then '0' else ' ')
          align := (parts.align.getD none).getD .left
          width := parts.width.getD 0
          kept := parts.precision }

end Layout

end MiniLox.Text
