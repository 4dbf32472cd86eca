import MiniLox.CommandLine.Arguments

/-!
How a script is asked for. The options that show something on the way may
stand on both sides of its name, in any number; each is taken where it stands,
and the name is all that is left. A name may start with a dash if a double
dash stands before it, for behind that there are no options.
-/

namespace MiniLox.CommandLine

/-- Arguments that are options to show something on the way. -/
def AllShowing (options : List String) : Prop := ∀ o ∈ options, o = "--tokens" ∨ o = "--ast"

/-- The settings with some options taken. -/
def Settings.taking (s : Settings) (options : List String) : Settings :=
  { s with
    showTokens := s.showTokens || options.contains "--tokens"
    showTrees := s.showTrees || options.contains "--ast" }

variable {path : String} {options before after : List String}

theorem Settings.taking_append (s : Settings) (options others : List String) :
    s.taking (options ++ others) = (s.taking options).taking others := by
  simp [taking, Bool.or_assoc]

/-! ### Telling arguments apart -/

/-- An option to show something, told apart. -/
def shownBy (option : String) : String × Word :=
  (option, .option (if option = "--tokens" then .tokens else .trees) none)

theorem AllShowing.classify_append (h : AllShowing options) (arguments : List String) :
    classify (options ++ arguments) = (classify arguments).map (options.map shownBy ++ ·) := by
  induction options with
  | nil => cases hmore : classify arguments <;> simp [hmore, Except.map]
  | cons option options ih =>
      have hoption : Word.ofArgument option = .ok (shownBy option).2 := by
        rcases h option (List.mem_cons_self ..) with rfl | rfl
        · rfl
        · rfl
      have hrest := ih fun o ho => h o (List.mem_cons_of_mem option ho)
      rw [List.cons_append, classify, hoption]
      show (classify (options ++ arguments)).map _ = _
      rw [hrest]
      cases classify arguments <;> rfl

/-- A text that does not start with a dash is a name. -/
theorem Word.ofArgument_of_head? (h : path.toList.head? ≠ some '-') :
    Word.ofArgument path = .ok .script := by
  have hother : spellings.lookup path = none := by
    rw [List.lookup_eq_none_iff]
    intro spelling hspelling
    rw [bne_iff_ne]
    rintro rfl
    revert h
    simp only [spellings, List.mem_cons, List.not_mem_nil, or_false] at hspelling
    rcases hspelling with rfl | rfl | rfl | rfl <;> decide
  rw [Word.ofArgument, hother]
  cases htext : path.toList with
  | nil => rfl
  | cons c cs =>
      rw [htext] at h
      have hc : c ≠ '-' := fun hc => h (by rw [hc]; rfl)
      split <;> simp_all

/-! ### Taking the arguments -/

theorem finish_shownBy {option : String} (h : option = "--tokens" ∨ option = "--ast") (t : Taken)
    (more : List (String × Word)) :
    t.finish (shownBy option :: more) =
      Taken.finish { t with settings := t.settings.taking [option] } more := by
  rcases h with rfl | rfl
  · show t.finish (("--tokens", .option .tokens none) :: more) = _
    rw [Taken.finish]
    simp [Settings.taking]
  · show t.finish (("--ast", .option .trees none) :: more) = _
    rw [Taken.finish]
    simp [Settings.taking]

/-- Options to show something are taken where they stand. -/
theorem AllShowing.finish_append (h : AllShowing options) (t : Taken)
    (more : List (String × Word)) :
    t.finish (options.map shownBy ++ more) =
      Taken.finish { t with settings := t.settings.taking options } more := by
  induction options generalizing t with
  | nil => simp [Settings.taking]
  | cons option options ih =>
      have hrest : AllShowing options := fun o ho => h o (List.mem_cons_of_mem option ho)
      have hsettings : t.settings.taking (option :: options) =
          (t.settings.taking [option]).taking options :=
        Settings.taking_append t.settings [option] options
      rw [List.map_cons, List.cons_append, finish_shownBy (h option (List.mem_cons_self ..)),
        ih hrest, hsettings]

theorem AllShowing.finish_eq (h : AllShowing options) {t : Taken} (ht : t.leftOver = []) :
    t.finish (options.map shownBy) = .ok (.run (t.settings.taking options)) := by
  have hall := h.finish_append t []
  rw [List.append_nil] at hall
  rw [hall, Taken.finish]
  simp [ht]

/-- A stretch of names is taken as a whole. -/
theorem finish_of_inStretch {argument : String} {word : Word}
    (h : inStretch (argument, word) = true) (t : Taken) (more : List (String × Word)) :
    t.finish ((argument, word) :: more) =
      (t.takeNames (argument :: (more.takeWhile inStretch).map Prod.fst)).finish
        (more.dropWhile inStretch) := by
  cases word with
  | script | separator => rw [Taken.finish] <;> simp
  | option | row | unknown => contradiction

/-- No option belongs to a stretch of names. -/
theorem inStretch_shownBy (option : String) : inStretch (shownBy option) = false := by
  rw [inStretch, shownBy]
  rfl

theorem takeWhile_inStretch_map_shownBy : (options.map shownBy).takeWhile inStretch = [] := by
  cases options with
  | nil => rfl
  | cons option options => simp [inStretch_shownBy]

theorem dropWhile_inStretch_map_shownBy :
    (options.map shownBy).dropWhile inStretch = options.map shownBy := by
  cases options with
  | nil => rfl
  | cons option options => simp [inStretch_shownBy]

/-! ### A single script -/

/-- The settings for a script with some options around its name. -/
def Settings.forScript (path : String) (options : List String) : Settings :=
  Settings.taking { scripts := [path] } options

/-- A name that does not start with a dash may have options on both sides. -/
theorem request_of_name (hbefore : AllShowing before) (hafter : AllShowing after)
    (hpath : path.toList.head? ≠ some '-') :
    request (before ++ path :: after) = .ok (.run (.forScript path (before ++ after))) := by
  have hafter' : classify after = .ok (after.map shownBy) := by
    have hall := hafter.classify_append []
    rw [List.append_nil] at hall
    rw [hall]
    simp [classify, Except.map]
  have hclassify : classify (before ++ path :: after) =
      .ok (before.map shownBy ++ (path, .script) :: after.map shownBy) := by
    rw [hbefore.classify_append, classify, Word.ofArgument_of_head? hpath, hafter']
    rfl
  -- A double dash is taken out of the names, but it would have been no name.
  have hname : [path].erase "--" = [path] := by
    have hne : path ≠ "--" := by
      rintro rfl
      exact hpath (by decide)
    simp [hne]
  rw [request, hclassify]
  show Taken.finish {} _ = _
  rw [hbefore.finish_append, finish_of_inStretch rfl, takeWhile_inStretch_map_shownBy,
    dropWhile_inStretch_map_shownBy, Taken.takeNames, if_neg (by simp), List.map_nil, hname,
    hafter.finish_eq rfl]
  simp [Settings.forScript, Settings.taking]

/-- Behind a double dash a name may be any text. -/
theorem request_of_separator (hbefore : AllShowing before) :
    request (before ++ ["--", path]) = .ok (.run (.forScript path before)) := by
  have hclassify : classify (before ++ ["--", path]) =
      .ok (before.map shownBy ++ [("--", .separator), (path, .script)]) := by
    rw [hbefore.classify_append]
    rfl
  have hnames : ["--", path].erase "--" = [path] := by simp
  rw [request, hclassify]
  show Taken.finish {} _ = _
  rw [hbefore.finish_append, finish_of_inStretch rfl]
  show Taken.finish (Taken.takeNames _ ["--", path]) [] = _
  rw [Taken.takeNames, if_neg (by simp), hnames, Taken.finish]
  simp [Settings.forScript, Settings.taking]

end MiniLox.CommandLine
