import MiniLox.Text.Layout
import MiniLox.Text.Quoted
import MiniLox.Text.Styled

/-!
Message templates. A template is a text with *holes* in braces; a doubled
brace stands for a brace. A hole says what is inserted, how it is converted
first, and how it is laid out:

    {}        the next insertion
    {2}       the insertion of that number, counted from zero
    {2[0]}    a character of that insertion
    {!r}      the insertion in quotes
    {:>8}     the insertion in a layout, which may have holes of its own

A template is filled from left to right, and the first fault ends it. What is
inserted is not looked into.

With colours the insertions are emphasised before they are put into their
holes, so a template is filled twice, and the two forms of the message may
differ in more than the emphasis.
-/

namespace MiniLox.Text

namespace Template

inductive Fault where
  | loneOpening
  | loneClosing
  | unclosedHole
  | openingInside
  | unfinishedConversion
  | strayConversion
  | unclosedLayout
  | tooManyDigits
  | switchedToNumbers
  | switchedToNext
  | unnamed (name : String)
  | missing (index : Nat)
  | emptyPart
  | unclosedItem
  | strayPart
  | noAttribute (name : String)
  | noNumber
  | outOfRange
  | unknownConversion (conversion : Char)
  | tooDeep
  | layout (fault : Layout.Fault)
deriving DecidableEq, Repr

def Fault.message : Fault → String
  | loneOpening => "Single '\x7b' encountered in format string"
  | loneClosing => "Single '\x7d' encountered in format string"
  | unclosedHole => "expected '\x7d' before end of string"
  | openingInside => "unexpected '\x7b' in field name"
  | unfinishedConversion => "end of string while looking for conversion specifier"
  | strayConversion => "expected ':' after conversion specifier"
  | unclosedLayout => "unmatched '\x7b' in format spec"
  | tooManyDigits => "Too many decimal digits in format string"
  | switchedToNumbers =>
    "cannot switch from automatic field numbering to manual field specification"
  | switchedToNext =>
    "cannot switch from manual field specification to automatic field numbering"
  | unnamed name => quoted name
  | missing index => s!"Replacement index {index} out of range for positional args tuple"
  | emptyPart => "Empty attribute in format string"
  | unclosedItem => "Missing ']' in format string"
  | strayPart => "Only '.' or '[' may follow ']' in format field specifier"
  | noAttribute name => s!"'str' object has no attribute '{name}'"
  | noNumber => "string indices must be integers, not 'str'"
  | outOfRange => "string index out of range"
  | unknownConversion conversion =>
    "Unknown conversion specifier " ++ Layout.showBelow 127 conversion
  | tooDeep => "Max string recursion exceeded"
  | layout fault => fault.message

/-! ### Reading a hole -/

/-- A hole as it is written: the name of what is inserted, the letter of a
conversion, and the layout. -/
structure Hole where
  name : List Char
  conversion : Option Char := none
  layout : List Char := []

/-- The name of a hole, the character that ends it, and what follows. Between
brackets every character belongs to the name. -/
def readName : (bracketed : Bool) → List Char → Except Fault (List Char × Char × List Char)
  | _, [] => .error .unclosedHole
  | true, c :: cs =>
    match readName (c != ']') cs with
    | .error fault => .error fault
    | .ok (name, stop, rest) => .ok (c :: name, stop, rest)
  | false, c :: cs =>
    if c = '\x7b' then .error .openingInside
    else if c = '\x7d' ∨ c = ':' ∨ c = '!' then .ok ([], c, cs)
    else
      match readName (c == '[') cs with
      | .error fault => .error fault
      | .ok (name, stop, rest) => .ok (c :: name, stop, rest)

def openBehind (c : Char) (opened : Nat) : Nat :=
  if c = '\x7b' then opened + 1 else if c = '\x7d' then opened - 1 else opened

/-- The layout of a hole and what follows the hole, when some holes are still
open inside the layout. -/
def readLayout : (opened : Nat) → List Char → Except Fault (List Char × List Char)
  | _, [] => .error .unclosedLayout
  | 0, '\x7d' :: cs => .ok ([], cs)
  | opened, c :: cs =>
    match readLayout (openBehind c opened) cs with
    | .error fault => .error fault
    | .ok (layout, rest) => .ok (c :: layout, rest)

def Hole.withLayout (hole : Hole) (s : List Char) : Except Fault (Hole × List Char) :=
  match readLayout 0 s with
  | .error fault => .error fault
  | .ok (layout, rest) => .ok ({ hole with layout := layout }, rest)

def Hole.read (s : List Char) : Except Fault (Hole × List Char) :=
  match readName false s with
  | .error fault => .error fault
  | .ok (name, '!', rest) =>
    match rest with
    | [] => .error .unfinishedConversion
    | c :: rest =>
      match rest with
      | [] => .error .unclosedLayout
      | '\x7d' :: rest => .ok ({ name := name, conversion := some c }, rest)
      | ':' :: rest => withLayout { name := name, conversion := some c } rest
      | _ :: _ => .error .strayConversion
  | .ok (name, ':', rest) => withLayout { name := name } rest
  | .ok (name, _, rest) => .ok ({ name := name }, rest)

theorem readName_rest_lt {bracketed : Bool} {s name rest : List Char} {stop : Char}
    (h : readName bracketed s = .ok (name, stop, rest)) : rest.length < s.length := by
  fun_induction readName bracketed s generalizing name with
  | case1 => simp at h
  | case2 => simp at h
  | case3 c cs name' stop' rest' hr ih =>
    simp only [Except.ok.injEq, Prod.mk.injEq] at h
    obtain ⟨-, rfl, rfl⟩ := h
    exact Nat.lt_succ_of_lt (ih hr)
  | case4 => simp at h
  | case5 =>
    simp only [Except.ok.injEq, Prod.mk.injEq] at h
    simp [← h.2.2]
  | case6 => simp at h
  | case7 c cs _ _ name' stop' rest' hr ih =>
    simp only [Except.ok.injEq, Prod.mk.injEq] at h
    obtain ⟨-, rfl, rfl⟩ := h
    exact Nat.lt_succ_of_lt (ih hr)

theorem readLayout_rest_lt {opened : Nat} {s layout rest : List Char}
    (h : readLayout opened s = .ok (layout, rest)) : rest.length < s.length := by
  fun_induction readLayout opened s generalizing layout with
  | case1 => simp at h
  | case2 cs =>
    simp only [Except.ok.injEq, Prod.mk.injEq] at h
    simp [← h.2]
  | case3 => simp at h
  | case4 opened c cs _ layout' rest' hr ih =>
    simp only [Except.ok.injEq, Prod.mk.injEq] at h
    obtain ⟨-, rfl⟩ := h
    exact Nat.lt_succ_of_lt (ih hr)

theorem Hole.withLayout_rest_lt {hole hole' : Hole} {s rest : List Char}
    (h : hole.withLayout s = .ok (hole', rest)) : rest.length < s.length := by
  rw [withLayout] at h
  split at h
  · simp at h
  · next layout rest' hr =>
    simp only [Except.ok.injEq, Prod.mk.injEq] at h
    exact h.2 ▸ readLayout_rest_lt hr

theorem Hole.read_rest_lt {hole : Hole} {s rest : List Char} (h : read s = .ok (hole, rest)) :
    rest.length < s.length := by
  rw [read] at h
  split at h
  · simp at h
  · next name after hn =>
    have hlt := readName_rest_lt hn
    split at h
    · simp at h
    · next c after =>
      split at h
      · simp at h
      · simp only [Except.ok.injEq, Prod.mk.injEq] at h
        simp only [List.length_cons] at hlt
        rw [← h.2]
        omega
      · have := withLayout_rest_lt h
        simp only [List.length_cons] at hlt
        omega
      · simp at h
  · next hn => exact Nat.lt_trans (withLayout_rest_lt h) (readName_rest_lt hn)
  · next hn =>
    simp only [Except.ok.injEq, Prod.mk.injEq] at h
    exact h.2 ▸ readName_rest_lt hn

/-! ### What is inserted -/

/-- How the holes of a template have been told apart so far. -/
inductive Numbering where
  | undecided
  | next (index : Nat)
  | numbered

def number? (part : List Char) : Except Fault (Option Nat) :=
  let digits := part.takeWhile isDigit
  if Layout.greatestNumber < numberOf digits then .error .tooManyDigits
  else .ok (if !part.isEmpty && digits.length == part.length then some (numberOf part) else none)

/-- The number of the insertion that the first part of a name stands for, and
how to go on. -/
def index (first : List Char) (numbering : Numbering) : Except Fault (Nat × Numbering) :=
  match number? first with
  | .error fault => .error fault
  | .ok (some n) =>
    match numbering with
    | .next _ => .error .switchedToNumbers
    | _ => .ok (n, .numbered)
  | .ok none =>
    if first.isEmpty then
      match numbering with
      | .undecided => .ok (0, .next 1)
      | .next n => .ok (n, .next (n + 1))
      | .numbered => .error .switchedToNext
    else .error (.unnamed (String.ofList first))

def isPart (c : Char) : Bool := c != '.' && c != '['

/-- The part of a text that the further parts of a name lead to: one of its
characters, by number. A text has no attributes. -/
def select (text : List Char) : (path : List Char) → Except Fault (List Char)
  | [] => .ok text
  | '.' :: path =>
    let name := path.takeWhile isPart
    .error (if name.isEmpty then .emptyPart else .noAttribute (String.ofList name))
  | '[' :: path =>
    match _h : path.dropWhile (· ≠ ']') with
    | [] => .error .unclosedItem
    | _ :: rest =>
      let item := path.takeWhile (· ≠ ']')
      match number? item with
      | .error fault => .error fault
      | .ok none => .error (if item.isEmpty then .emptyPart else .noNumber)
      | .ok (some n) =>
        match text[n]? with
        | none => .error .outOfRange
        | some c => select [c] rest
  | _ :: _ => .error .strayPart
termination_by path => path.length
decreasing_by
  have := congrArg List.length _h
  have := (List.dropWhile_sublist (fun c => decide (c ≠ ']')) (l := path)).length_le
  simp only [List.length_cons] at *
  omega

def resolve (insertions : List String) (numbering : Numbering) (name : List Char) :
    Except Fault (List Char × Numbering) :=
  match index (name.takeWhile isPart) numbering with
  | .error fault => .error fault
  | .ok (n, numbering) =>
    match insertions[n]? with
    | none => .error (.missing n)
    | some insertion =>
      match select insertion.toList (name.dropWhile isPart) with
      | .error fault => .error fault
      | .ok text => .ok (text, numbering)

/-- A text after a conversion: as it is, in quotes, or in quotes with Latin
characters only. The null character stands for no conversion. -/
def convert (text : List Char) : (conversion : Option Char) → Except Fault (List Char)
  | none => .ok text
  | some '\x00' => .ok text
  | some 's' => .ok text
  | some 'r' => .ok (quotedWith isPrintable text)
  | some 'a' => .ok (quotedWith (fun c => isPrintable c && decide (c.toNat < 128)) text)
  | some c => .error (.unknownConversion c)

/-! ### Filling -/

abbrev Filled := Except Fault (List Char × Numbering)

def Filled.after (text : List Char) : Filled → Filled
  | .error fault => .error fault
  | .ok (more, numbering) => .ok (text ++ more, numbering)

def Hole.fill (fillLayout : Numbering → List Char → Filled) (insertions : List String)
    (numbering : Numbering) (hole : Hole) : Filled := do
  let (text, numbering) ← resolve insertions numbering hole.name
  let text ← convert text hole.conversion
  let (layout, numbering) ←
    if hole.layout.contains '\x7b' then fillLayout numbering hole.layout
    else .ok (hole.layout, numbering)
  match Layout.read layout with
  | .error fault => .error (.layout fault)
  | .ok layout => .ok (layout.apply text, numbering)

def fillWith (fillLayout : Numbering → List Char → Filled) (insertions : List String)
    (numbering : Numbering) : List Char → Filled
  | [] => .ok ([], numbering)
  | '\x7d' :: cs =>
    match cs with
    | '\x7d' :: cs => (fillWith fillLayout insertions numbering cs).after ['\x7d']
    | _ => .error .loneClosing
  | '\x7b' :: cs =>
    match cs with
    | [] => .error .loneOpening
    | '\x7b' :: cs => (fillWith fillLayout insertions numbering cs).after ['\x7b']
    | cs =>
      match _h : Hole.read cs with
      | .error fault => .error fault
      | .ok (hole, rest) =>
        match hole.fill fillLayout insertions numbering with
        | .error fault => .error fault
        | .ok (text, numbering) => (fillWith fillLayout insertions numbering rest).after text
  | c :: cs => (fillWith fillLayout insertions numbering cs).after [c]
termination_by s => s.length
decreasing_by
  · simp only [List.length_cons]
    omega
  · simp only [List.length_cons]
    omega
  · exact Nat.lt_succ_of_lt (Hole.read_rest_lt _h)
  · simp only [List.length_cons]
    omega

def fillWithin (insertions : List String) : (levels : Nat) → Numbering → List Char → Filled
  | 0 => fun _ _ => .error .tooDeep
  | levels + 1 => fillWith (fillWithin insertions levels) insertions

/-- The levels of holes: those of the template and those in their layouts. -/
def levelLimit : Nat := 2

def format (template : String) (insertions : List String) : Except Fault String :=
  match fillWithin insertions levelLimit .undecided template.toList with
  | .error fault => .error fault
  | .ok (text, _) => .ok (String.ofList text)

/-- The message that a template makes with some insertions on a terminal with
or without colours. Without insertions the template is taken as it stands,
braces and all. -/
def fill (color : Bool) (template : String) (insertions : List String) : Except Fault Message :=
  if insertions.isEmpty then .ok [.plain template]
  else
    match format template insertions with
    | .error fault => .error fault
    | .ok text =>
      match format template (insertions.map fun s => (Span.strong s).render color) with
      | .error fault => .error fault
      | .ok styled => .ok [{ text := text, styled := styled }]

end Template

end MiniLox.Text
