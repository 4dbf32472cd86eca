import MiniLox.Text.Classes
import MiniLox.Text.Quoted

/-!
The arguments of the command: options anywhere, and the names of scripts.
Arguments are first told apart one by one, up to a lone double dash, behind
which all are names. An option may be cut short as long as it is clear which
one is meant. Then they are taken in their order. Only the first stretch of
names that stand together is taken as the scripts; names that come later, and
options that are not known, are left over, and nothing may be left over.
-/

namespace MiniLox.CommandLine

inductive Flag where
  | help
  | tokens
  | trees
deriving DecidableEq, Repr

/-- All spellings of an option in messages. -/
def Flag.name : Flag → String
  | help => "-h/--help"
  | tokens => "--tokens"
  | trees => "--ast"

/-- The spellings of the options. -/
def spellings : List (String × Flag) :=
  [("-h", .help), ("--help", .help), ("--tokens", .tokens), ("--ast", .trees)]

/-- What an argument is: the name of a script, the double dash, an option
with the value given to it, if any, the short option for help with more behind
it, or an option that is not known. -/
inductive Word where
  | script
  | separator
  | option (flag : Flag) (value : Option String)
  | row (others : List Char)
  | unknown
deriving DecidableEq, Repr

inductive UsageError where
  | ambiguous (argument : String) (candidates : List String)
  | valued (flag : Flag) (value : String)
  | unrecognized (arguments : List String)
deriving DecidableEq, Repr

def UsageError.message : UsageError → String
  | ambiguous argument candidates =>
    s!"ambiguous option: {argument} could match " ++ ", ".intercalate candidates
  | valued flag value =>
    s!"argument {flag.name}: ignored explicit argument " ++ Text.quoted value
  | unrecognized arguments => "unrecognized arguments: " ++ " ".intercalate arguments

/-! ### Telling arguments apart -/

def cutAtEqual (argument : List Char) : List Char × Option (List Char) :=
  match argument.dropWhile (· ≠ '=') with
  | [] => (argument, none)
  | _ :: value => (argument.takeWhile (· ≠ '='), some value)

/-- A dash and a whole number, or a dash and a number with a point. A newline
at the end does not count. -/
def isNegativeNumber (argument : List Char) : Bool :=
  let argument := if argument.getLast? = some '\n' then argument.dropLast else argument
  match argument with
  | '-' :: number =>
    match number.dropWhile Text.isDigit with
    | [] => !number.isEmpty
    | '.' :: places => !places.isEmpty && places.all Text.isDigit
    | _ => false
  | _ => false

def startingWith (text : List Char) : List (String × Flag) :=
  spellings.filter fun s => text.isPrefixOf s.1.toList

/-- An argument that starts with a dash but is no option as it stands. -/
def Word.ofCut (argument : List Char) : Except UsageError Word :=
  let (name, value) := cutAtEqual argument
  let value := value.map String.ofList
  match spellings.lookup (String.ofList name), argument with
  | some .help, '-' :: 'h' :: '=' :: others => .ok (.row others)
  | some flag, _ => .ok (.option flag value)
  | none, '-' :: '-' :: _ =>
    match startingWith name with
    | [] => .ok (if argument.contains ' ' then .script else .unknown)
    | [(_, flag)] => .ok (.option flag value)
    | candidates =>
      .error (.ambiguous (String.ofList argument) (candidates.map Prod.fst))
  | none, '-' :: 'h' :: others => .ok (.row others)
  | none, _ =>
    .ok (if isNegativeNumber argument || argument.contains ' ' then .script else .unknown)

/-- What an argument is that no double dash precedes. -/
def Word.ofArgument (argument : String) : Except UsageError Word :=
  match spellings.lookup argument, argument.toList with
  | some flag, _ => .ok (.option flag none)
  | none, ['-', '-'] => .ok .separator
  | none, '-' :: c :: cs => Word.ofCut ('-' :: c :: cs)
  | none, _ => .ok .script

def classify : List String → Except UsageError (List (String × Word))
  | [] => .ok []
  | argument :: more =>
    match Word.ofArgument argument with
    | .error e => .error e
    | .ok .separator => .ok ((argument, .separator) :: more.map fun name => (name, .script))
    | .ok word => (classify more).map ((argument, word) :: ·)

/-! ### Taking the arguments in their order -/

structure Settings where
  scripts : List String := []
  showTokens : Bool := false
  showTrees : Bool := false
deriving DecidableEq, Repr

inductive Request where
  | run (settings : Settings)
  | help
deriving DecidableEq, Repr

/-- What has been taken so far: the settings, whether they have their
scripts, and what is left over. -/
structure Taken where
  settings : Settings := {}
  hasScripts : Bool := false
  leftOver : List String := []

def inStretch (entry : String × Word) : Bool :=
  entry.2 == .script || entry.2 == .separator

/-- Takes a stretch of names, which are the scripts if there were none
before. The first double dash is no name. -/
def Taken.takeNames (t : Taken) (names : List String) : Taken :=
  if t.hasScripts then { t with leftOver := t.leftOver ++ names }
  else
    { t with
      settings := { t.settings with scripts := names.erase "--" }
      hasScripts := true }

/-- Takes what stands behind the short option for help in the same argument,
with or without an equality sign between them. It may be that option again,
however often. Anything else is refused as a value, from where it starts. -/
def helpRow : List Char → Except UsageError Request
  | ['h'] => .ok .help
  | 'h' :: others => helpRow others
  | others => .error (.valued .help (String.ofList others))

def Taken.finish (t : Taken) : List (String × Word) → Except UsageError Request
  | [] =>
    if t.leftOver.isEmpty then .ok (.run t.settings) else .error (.unrecognized t.leftOver)
  | (argument, word) :: more =>
    match word with
    | .option .help none => .ok .help
    | .option .tokens none =>
      finish { t with settings := { t.settings with showTokens := true } } more
    | .option .trees none =>
      finish { t with settings := { t.settings with showTrees := true } } more
    | .option flag (some value) => .error (.valued flag value)
    | .row others => helpRow others
    | .unknown => finish { t with leftOver := t.leftOver ++ [argument] } more
    | _ =>
      finish (t.takeNames (argument :: (more.takeWhile inStretch).map Prod.fst))
        (more.dropWhile inStretch)
termination_by entries => entries.length
decreasing_by
  all_goals simp only [List.length_cons]
  · omega
  · omega
  · omega
  · have := (List.dropWhile_sublist inStretch (l := more)).length_le
    omega

def request (arguments : List String) : Except UsageError Request :=
  match classify arguments with
  | .error e => .error e
  | .ok entries => Taken.finish {} entries

end MiniLox.CommandLine
