import Mathlib.Data.List.Basic
import MiniLox.Console
import MiniLox.Proofs.Text.Strip

/-!
What the lines of the console ask for. A line is told by its stripped text: it
is blank, it is one of the few words of the console, or it is a program. The
words count only if nothing stands behind them, so a program may start with any
of them.
-/

namespace MiniLox.Console

open Text

/-- The text of a line without white space at either end. -/
def stripped (line : String) : List Char := strip line.toList

/-- The lines that stop the console. -/
def Stops (line : String) : Prop :=
  stripped line = "exit".toList ∨ stripped line = "EOF".toList ∨
    (stripped line).map Char.toLower = ".exit".toList

def IsBlank (line : String) : Prop := stripped line = []

def AsksHelp (line : String) : Prop := stripped line = "help".toList ∨ stripped line = "?".toList

/-- All other lines are programs. -/
@[mk_iff]
structure IsProgram (line : String) : Prop where
  not_stops : ¬Stops line
  not_blank : ¬IsBlank line
  not_help : ¬AsksHelp line

/-- The program of a line: its stripped text, in which a question mark in front
stands for a word. -/
def programOf (line : String) : String := String.ofList (expand (stripped line))

/-- Lines that look like more than programs and are not: a word of the console
stands alone on its line, and no other sign than a question mark in front has a
meaning. -/
inductive Resembles (line : String) : Prop where
  | word {word rest : List Char}
      (hword : word = "help".toList ∨ word = "exit".toList ∨ word = "EOF".toList)
      (hrest : rest ≠ []) (hline : stripped line = word ++ rest)
  | bang {rest : List Char} (hline : stripped line = '!' :: rest)
  | point {rest : List Char} (hline : stripped line = '.' :: rest) (hstops : ¬Stops line)

instance (line : String) : Decidable (Stops line) :=
  inferInstanceAs (Decidable (_ ∨ _ ∨ _))

instance (line : String) : Decidable (IsBlank line) :=
  inferInstanceAs (Decidable (stripped line = []))

instance (line : String) : Decidable (AsksHelp line) :=
  inferInstanceAs (Decidable (_ ∨ _))

instance (line : String) : Decidable (IsProgram line) :=
  decidable_of_iff _ (isProgram_iff line).symm

variable {line : String} {rest : List Char}

theorem ofList_eq_iff {s : List Char} {word : String} :
    String.ofList s = word ↔ s = word.toList := by
  rw [← String.toList_inj, String.toList_ofList]

theorem expand_of_ne {s : List Char} (h : ∀ rest, s ≠ '?' :: rest) : expand s = s := by
  unfold expand
  split
  · next rest => exact absurd rfl (h rest)
  · rfl

/-! ### The word of a line -/

/-- What a line asks for is settled by its word and by whether anything stands
behind that. -/
theorem ofLine_of_not_isBlank (hblank : ¬IsBlank line) :
    Command.ofLine line =
      if strip ((expand (stripped line)).dropWhile Lexeme.isWordPart) ≠ [] then
        .ofSource (expand (stripped line))
      else if (expand (stripped line)).takeWhile Lexeme.isWordPart = "help".toList then .help
      else if (expand (stripped line)).takeWhile Lexeme.isWordPart = "exit".toList then .stop false
      else if (expand (stripped line)).takeWhile Lexeme.isWordPart = "EOF".toList then .stop true
      else .ofSource (expand (stripped line)) := by
  have hne : (stripped line).isEmpty = false := List.isEmpty_eq_false_iff.mpr hblank
  show (if (stripped line).isEmpty then _ else _) = _
  simp only [hne, ofList_eq_iff, Bool.not_eq_true', List.isEmpty_eq_false_iff, Bool.false_eq_true,
    if_false]
  rfl

/-! ### Lines without a question mark in front -/

theorem ofSource_stripped (line : String) :
    Command.ofSource (stripped line) =
      if (stripped line).map Char.toLower = ".exit".toList then .stop false
      else .run (String.ofList (stripped line)) := by
  rw [Command.ofSource, stripped, strip_strip]
  rfl

/-- Such a line is a word of the console or a source: behind the word of a
stripped text there is nothing, or more than blanks. -/
theorem ofLine_of_expand_eq (hblank : ¬IsBlank line)
    (hexpand : expand (stripped line) = stripped line) :
    Command.ofLine line =
      if stripped line = "help".toList then .help
      else if stripped line = "exit".toList then .stop false
      else if stripped line = "EOF".toList then .stop true
      else .ofSource (stripped line) := by
  have happ : (stripped line).takeWhile Lexeme.isWordPart ++
      (stripped line).dropWhile Lexeme.isWordPart = stripped line :=
    List.takeWhile_append_dropWhile
  rw [ofLine_of_not_isBlank hblank, hexpand]
  by_cases hrest : (stripped line).dropWhile Lexeme.isWordPart = []
  · rw [hrest, List.append_nil] at happ
    rw [hrest, happ, if_neg]
    simp [strip]
  · have hstrip : strip ((stripped line).dropWhile Lexeme.isWordPart) ≠ [] := fun hnil =>
      hrest (eq_nil_of_suffix_strip (List.dropWhile_suffix _)
        fun _ => isBlank_of_strip_eq_nil hnil)
    -- The words have no character that would stand behind them.
    have hword {word : List Char} (hall : word.dropWhile Lexeme.isWordPart = []) :
        stripped line ≠ word := by
      rintro rfl
      exact hrest hall
    rw [if_pos hstrip, if_neg (hword (by decide)), if_neg (hword (by decide)),
      if_neg (hword (by decide))]

/-! ### Lines with a question mark in front -/

/-- Behind a question mark anything makes a program of the line. -/
theorem ofLine_of_question (hline : stripped line = '?' :: rest) :
    Command.ofLine line =
      if rest = [] then .help else .run (String.ofList ("help ".toList ++ rest)) := by
  have hblank : ¬IsBlank line := by
    rw [IsBlank, hline]
    exact List.cons_ne_nil _ _
  have hexpand : expand (stripped line) = "help ".toList ++ rest := by
    rw [hline]
    rfl
  have htake : ("help ".toList ++ rest).takeWhile Lexeme.isWordPart = "help".toList := rfl
  have hdrop : ("help ".toList ++ rest).dropWhile Lexeme.isWordPart = ' ' :: rest := rfl
  rw [ofLine_of_not_isBlank hblank, hexpand, htake, hdrop]
  by_cases hrest : rest = []
  · subst hrest
    rfl
  · have hstripped : strip line.toList = '?' :: rest := hline
    have hstrip : strip (' ' :: rest) ≠ [] := by
      intro hnil
      refine hrest (eq_nil_of_suffix_strip (s := line.toList) ?_ fun c hc => ?_)
      · rw [hstripped]
        exact List.suffix_cons _ _
      · exact isBlank_of_strip_eq_nil hnil (List.mem_cons_of_mem _ hc)
    have hkept : strip ("help ".toList ++ rest) = "help ".toList ++ rest := by
      refine strip_eq_self (fun c hc => ?_) fun c hc => ?_
      · obtain rfl : 'h' = c := Option.some.inj hc
        decide
      · refine getLast?_strip (s := line.toList) ?_
        rw [hstripped, ← List.singleton_append, List.getLast?_append_of_ne_nil _ hrest]
        rwa [List.getLast?_append_of_ne_nil _ hrest] at hc
    rw [if_pos hstrip, if_neg hrest, Command.ofSource, hkept, if_neg]
    simp [exitWord]

/-! ### The classes of lines -/

theorem ofLine_of_isBlank (h : IsBlank line) : Command.ofLine line = .nothing := by
  have hstrip : strip line.toList = [] := h
  rw [Command.ofLine, hstrip]
  rfl

theorem ofLine_of_asksHelp (h : AsksHelp line) : Command.ofLine line = .help := by
  rcases h with h | h
  · have hblank : ¬IsBlank line := by
      rw [IsBlank, h]
      decide
    have hexpand : expand (stripped line) = stripped line := by
      rw [h]
      rfl
    rw [ofLine_of_expand_eq hblank hexpand, if_pos h]
  · have hline : stripped line = '?' :: [] := h
    rw [ofLine_of_question hline, if_pos rfl]

/-- The console says goodbye with an empty line only where its input ends. -/
theorem ofLine_of_stops (h : Stops line) :
    Command.ofLine line = .stop (decide (stripped line = "EOF".toList)) := by
  rcases h with h | h | h
  · have hblank : ¬IsBlank line := by
      rw [IsBlank, h]
      decide
    rw [ofLine_of_expand_eq hblank (by rw [h]; rfl), h]
    rfl
  · have hblank : ¬IsBlank line := by
      rw [IsBlank, h]
      decide
    rw [ofLine_of_expand_eq hblank (by rw [h]; rfl), h]
    rfl
  -- The other words are not this one in any mixture of cases.
  · have hne {word : List Char} (hword : word.map Char.toLower ≠ ".exit".toList) :
        stripped line ≠ word := by
      intro hline
      exact hword (by rw [← hline, h])
    have hexpand : expand (stripped line) = stripped line := by
      refine expand_of_ne fun rest hline => ?_
      rw [hline] at h
      exact absurd (List.cons.inj h).1 (by decide)
    rw [ofLine_of_expand_eq (hne (by decide)) hexpand, if_neg (hne (by decide)),
      if_neg (hne (by decide)), if_neg (hne (by decide)), ofSource_stripped, if_pos h,
      decide_eq_false (hne (by decide))]

theorem ofLine_of_isProgram (h : IsProgram line) : Command.ofLine line = .run (programOf line) := by
  obtain ⟨hstops, hblank, hhelp⟩ := h
  by_cases hquestion : ∃ rest, stripped line = '?' :: rest
  · obtain ⟨rest, hline⟩ := hquestion
    have hrest : rest ≠ [] := by
      rintro rfl
      exact hhelp (.inr hline)
    rw [ofLine_of_question hline, if_neg hrest, programOf, hline]
    rfl
  · have hexpand : expand (stripped line) = stripped line :=
      expand_of_ne fun rest hline => hquestion ⟨rest, hline⟩
    rw [ofLine_of_expand_eq hblank hexpand, if_neg fun h => hhelp (.inl h),
      if_neg fun h => hstops (.inl h), if_neg fun h => hstops (.inr (.inl h)), ofSource_stripped,
      if_neg fun h => hstops (.inr (.inr h)), programOf, hexpand]

/-- What follows the word, or the sign, makes the line none of those that mean
something. -/
theorem Resembles.isProgram (h : Resembles line) : IsProgram line := by
  cases h with
  | word hword hrest hline =>
      rcases hword with rfl | rfl | rfl <;>
        constructor <;> simp [Stops, IsBlank, AsksHelp, hline, hrest]
  | bang hline => constructor <;> simp [Stops, IsBlank, AsksHelp, hline]
  | point hline hstops =>
      refine ⟨hstops, ?_, ?_⟩ <;> simp [IsBlank, AsksHelp, hline]

theorem isProgram_of_question (hline : stripped line = '?' :: rest) (hrest : rest ≠ []) :
    IsProgram line := by
  constructor <;> simp [Stops, IsBlank, AsksHelp, hline, hrest]

/-- Only a question mark in front is read as something else. -/
theorem Resembles.programOf_eq (h : Resembles line) :
    programOf line = String.ofList (stripped line) := by
  rw [programOf, expand_of_ne]
  intro behind
  cases h with
  | word hword hrest hline =>
      rw [hline]
      rcases hword with rfl | rfl | rfl <;> simp
  | bang hline | point hline => simp [hline]

end MiniLox.Console
