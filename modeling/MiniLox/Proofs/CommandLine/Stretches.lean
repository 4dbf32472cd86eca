import MiniLox.Proofs.CommandLine.Status

/-!
Several names among the options. Only the names that stand together in front of
the next option are taken as scripts, and a name behind that is left over. So
more than one script is noticed as such exactly if all the names stand together;
otherwise the later ones are arguments that are not recognized. Nothing runs in
either case.
-/

namespace MiniLox.CommandLine

/-- Whether an argument is a name, and not a dash with something behind it. -/
def isName (argument : String) : Bool := argument.toList.head? != some '-'

/-- Every argument is an option to show something or a name. -/
def Ordinary (arguments : List String) : Prop :=
  ∀ a ∈ arguments, (a = "--tokens" ∨ a = "--ast") ∨ isName a = true

/-- The names among some arguments. -/
def names (arguments : List String) : List String := arguments.filter isName

/-- The names up to the next option. -/
def firstNames (arguments : List String) : List String :=
  (arguments.dropWhile (!isName ·)).takeWhile isName

/-- The names with an option between them and the first names. -/
def lateNames (arguments : List String) : List String :=
  names ((arguments.dropWhile (!isName ·)).dropWhile isName)

/-- No option stands between two names. -/
def Together (arguments : List String) : Prop :=
  ∃ before after, AllShowing before ∧ AllShowing after ∧
    arguments = before ++ names arguments ++ after

variable {arguments options : List String} {argument : String}

/-! ### Names and options apart -/

theorem isName_of_showing (h : argument = "--tokens" ∨ argument = "--ast") :
    isName argument = false := by
  rcases h with rfl | rfl <;> decide

theorem AllShowing.isName_eq_false (h : AllShowing options) :
    ∀ o ∈ options, isName o = false :=
  fun o ho => isName_of_showing (h o ho)

theorem Ordinary.of_cons (h : Ordinary (argument :: arguments)) : Ordinary arguments :=
  fun a ha => h a (List.mem_cons_of_mem argument ha)

theorem Ordinary.of_suffix {rest : List String} (h : Ordinary arguments)
    (hrest : rest <:+ arguments) : Ordinary rest :=
  fun a ha => h a (hrest.subset ha)

theorem Ordinary.allShowing (h : Ordinary arguments)
    (hnames : ∀ a ∈ arguments, isName a = false) : AllShowing arguments := by
  intro a ha
  rcases h a ha with hoption | hname
  · exact hoption
  · rw [hnames a ha] at hname
    contradiction

theorem AllShowing.names_eq_nil (h : AllShowing options) : names options = [] :=
  List.filter_eq_nil_iff.mpr fun o ho => by simp [h.isName_eq_false o ho]

theorem names_append (us vs : List String) : names (us ++ vs) = names us ++ names vs :=
  List.filter_append ..

theorem names_eq_self (h : ∀ a ∈ arguments, isName a = true) : names arguments = arguments :=
  List.filter_eq_self.mpr h

theorem of_mem_takeWhile {accepts : String → Bool} {a : String}
    (h : a ∈ arguments.takeWhile accepts) : accepts a = true :=
  List.all_eq_true.mp List.all_takeWhile a h

/-- Arguments are options, a stretch of names, and what stands behind it. -/
theorem Ordinary.exists_stretch (h : Ordinary arguments) :
    ∃ before rest, AllShowing before ∧ (∀ a ∈ rest.head?, isName a = false) ∧
      (∀ a ∈ firstNames arguments, isName a = true) ∧
        arguments = before ++ firstNames arguments ++ rest ∧ lateNames arguments = names rest := by
  refine ⟨arguments.takeWhile (!isName ·),
    (arguments.dropWhile (!isName ·)).dropWhile isName, ?_, ?_, ?_, ?_, rfl⟩
  · refine Ordinary.allShowing (fun a ha => h a ((List.takeWhile_sublist _).subset ha)) ?_
    exact fun a ha => by simpa using of_mem_takeWhile ha
  · intro a ha
    have hhead := List.head?_dropWhile_not isName (arguments.dropWhile (!isName ·))
    rw [Option.mem_def.mp ha] at hhead
    simpa using hhead
  · exact fun a ha => of_mem_takeWhile ha
  · rw [firstNames, List.append_assoc, List.takeWhile_append_dropWhile,
      List.takeWhile_append_dropWhile]

theorem Ordinary.names_eq (h : Ordinary arguments) :
    names arguments = firstNames arguments ++ lateNames arguments := by
  obtain ⟨before, rest, hbefore, -, hfirst, hsplit, hlate⟩ := h.exists_stretch
  conv => lhs; rw [hsplit]
  rw [names_append, names_append, hbefore.names_eq_nil, names_eq_self hfirst, List.nil_append,
    hlate]

/-- The late names are those that do not follow at once behind the first. -/
theorem lateNames_append {before stretch rest : List String} (hbefore : AllShowing before)
    (hstretch : ∀ a ∈ stretch, isName a = true) (hne : stretch ≠ [])
    (hrest : ∀ a ∈ rest.head?, isName a = false) :
    lateNames (before ++ stretch ++ rest) = names rest := by
  have hoptions : ∀ o ∈ before, (!isName o) = true := by
    intro o ho
    simp [hbefore.isName_eq_false o ho]
  obtain ⟨name, more, rfl⟩ := List.exists_cons_of_ne_nil hne
  have hname : isName name = true := hstretch name (List.mem_cons_self ..)
  have hfront : ((name :: more) ++ rest).dropWhile (!isName ·) = (name :: more) ++ rest := by
    simp [hname]
  have hbehind : rest.dropWhile isName = rest := by
    cases rest with
    | nil => rfl
    | cons a rest => simp [hrest a rfl]
  rw [lateNames, List.append_assoc, List.dropWhile_append_of_pos hoptions, hfront,
    List.dropWhile_append_of_pos hstretch, hbehind]

/-- Names that stand together are a single stretch. -/
theorem Ordinary.together_iff (h : Ordinary arguments) :
    Together arguments ↔ lateNames arguments = [] := by
  constructor
  · rintro ⟨before, after, hbefore, hafter, hsplit⟩
    by_cases hne : names arguments = []
    · rw [h.names_eq] at hne
      exact (List.append_eq_nil_iff.mp hne).2
    · have hnames : ∀ a ∈ names arguments, isName a = true := fun a ha => (List.mem_filter.mp ha).2
      have hhead : ∀ a ∈ after.head?, isName a = false :=
        fun a ha => hafter.isName_eq_false a (List.mem_of_mem_head? ha)
      rw [hsplit, lateNames_append hbefore hnames hne hhead, hafter.names_eq_nil]
  · intro hlate
    obtain ⟨before, rest, hbefore, -, -, hsplit, hrest⟩ := h.exists_stretch
    have hafter : AllShowing rest := by
      refine (h.of_suffix (hsplit ▸ List.suffix_append _ rest)).allShowing fun a ha => ?_
      have hnone := List.filter_eq_nil_iff.mp (hrest.symm.trans hlate) a ha
      simpa using hnone
    refine ⟨before, rest, hbefore, hafter, ?_⟩
    rw [h.names_eq, hlate, List.append_nil]
    exact hsplit

/-! ### Telling the arguments apart -/

/-- An argument told apart: a name, or an option to show something. -/
def wordOf (argument : String) : String × Word :=
  if isName argument then (argument, .script) else shownBy argument

theorem inStretch_wordOf (argument : String) : inStretch (wordOf argument) = isName argument := by
  unfold wordOf
  split
  · next h => exact h.symm
  · next h =>
    rw [inStretch_shownBy]
    exact (Bool.eq_false_iff.mpr h).symm

theorem fst_wordOf (argument : String) : (wordOf argument).1 = argument := by
  unfold wordOf
  split <;> rfl

theorem Ordinary.classify_eq (h : Ordinary arguments) :
    classify arguments = .ok (arguments.map wordOf) := by
  induction arguments with
  | nil => rfl
  | cons a more ih =>
      have hword : Word.ofArgument a = .ok (wordOf a).2 := by
        unfold wordOf
        split
        · next hname => exact Word.ofArgument_of_head? (by simpa [isName] using hname)
        · next hname =>
          rcases h a (List.mem_cons_self ..) with (rfl | rfl) | hname'
          · rfl
          · rfl
          · exact absurd hname' hname
      have hnot : (wordOf a).2 ≠ .separator := by
        unfold wordOf
        split <;> exact nofun
      have hentry : wordOf a = (a, (wordOf a).2) := Prod.ext (fst_wordOf a) rfl
      rw [classify, hword, ih h.of_cons, List.map_cons, hentry]
      split
      · contradiction
      · next hok =>
        rw [Except.ok.injEq] at hok
        exact absurd hok hnot
      · next hok =>
        rw [Except.ok.injEq] at hok
        rw [← hok]
        rfl

/-! ### Taking the arguments -/

/-- A name is no option. -/
theorem Settings.taking_of_names (s : Settings) (h : ∀ a ∈ arguments, isName a = true) :
    s.taking arguments = s := by
  have hnot {option : String} (hoption : isName option = false) :
      arguments.contains option = false := by
    rw [Bool.eq_false_iff]
    intro hcontains
    have hmem := h option (List.contains_iff_mem.mp hcontains)
    rw [hoption] at hmem
    contradiction
  rw [taking, hnot (by decide), hnot (by decide), Bool.or_false, Bool.or_false]

/-- What comes out once there are scripts: names that are left over are refused. -/
def Taken.outcome (t : Taken) (arguments : List String) : Except UsageError Request :=
  if t.leftOver ++ names arguments = [] then .ok (.run (t.settings.taking arguments))
  else .error (.unrecognized (t.leftOver ++ names arguments))

theorem Taken.outcome_cons_of_showing {t : Taken} (h : argument = "--tokens" ∨ argument = "--ast") :
    outcome { t with settings := t.settings.taking [argument] } arguments =
      t.outcome (argument :: arguments) := by
  have hnames : names (argument :: arguments) = names arguments := by
    simp [names, isName_of_showing h]
  have hsettings := Settings.taking_append t.settings [argument] arguments
  rw [List.singleton_append] at hsettings
  rw [outcome, outcome, hnames, hsettings]

theorem Taken.outcome_append_of_names {t : Taken} {stretch : List String}
    (h : ∀ a ∈ stretch, isName a = true) :
    outcome { t with leftOver := t.leftOver ++ stretch } arguments =
      t.outcome (stretch ++ arguments) := by
  rw [outcome, outcome, names_append, names_eq_self h, Settings.taking_append,
    Settings.taking_of_names _ h, List.append_assoc]

theorem takeWhile_inStretch_map_wordOf (arguments : List String) :
    ((arguments.map wordOf).takeWhile inStretch).map Prod.fst = arguments.takeWhile isName := by
  have hfst : Prod.fst ∘ wordOf = id := funext fst_wordOf
  have htest : inStretch ∘ wordOf = isName := funext inStretch_wordOf
  rw [List.takeWhile_map, htest, List.map_map, hfst, List.map_id]

theorem dropWhile_inStretch_map_wordOf (arguments : List String) :
    (arguments.map wordOf).dropWhile inStretch = (arguments.dropWhile isName).map wordOf := by
  have htest : inStretch ∘ wordOf = isName := funext inStretch_wordOf
  rw [List.dropWhile_map, htest]

theorem finish_wordOf_of_isName (h : isName argument = true) (t : Taken) :
    t.finish ((argument :: arguments).map wordOf) =
      (t.takeNames (argument :: arguments.takeWhile isName)).finish
        ((arguments.dropWhile isName).map wordOf) := by
  have hword : wordOf argument = (argument, .script) := by simp [wordOf, h]
  rw [List.map_cons, hword, finish_of_inStretch rfl, takeWhile_inStretch_map_wordOf,
    dropWhile_inStretch_map_wordOf]

/-- Where there are scripts already all names are left over. By induction on the number of
arguments, for a stretch of names is taken at once. -/
theorem Ordinary.finish_eq {arguments : List String} (h : Ordinary arguments) {t : Taken}
    (ht : t.hasScripts = true) : t.finish (arguments.map wordOf) = t.outcome arguments := by
  match arguments with
  | [] =>
      rw [List.map_nil, Taken.finish]
      simp [Taken.outcome, names, Settings.taking]
  | a :: more =>
      rcases h a (List.mem_cons_self ..) with hoption | hname
      · have hword : wordOf a = shownBy a := by simp [wordOf, isName_of_showing hoption]
        rw [List.map_cons, hword, finish_shownBy hoption, ← Taken.outcome_cons_of_showing hoption]
        exact h.of_cons.finish_eq ht
      · have hstretch : ∀ b ∈ a :: more.takeWhile isName, isName b = true :=
          List.forall_mem_cons.mpr ⟨hname, fun b hb => of_mem_takeWhile hb⟩
        have hshorter := (List.dropWhile_sublist isName (l := more)).length_le
        have hrest : Ordinary (more.dropWhile isName) :=
          h.of_cons.of_suffix (List.dropWhile_suffix _)
        have hlist : a :: more = (a :: more.takeWhile isName) ++ more.dropWhile isName := by
          rw [List.cons_append, List.takeWhile_append_dropWhile]
        rw [finish_wordOf_of_isName hname, Taken.takeNames, if_pos ht, hlist,
          ← Taken.outcome_append_of_names hstretch]
        exact hrest.finish_eq ht
termination_by arguments.length
decreasing_by
  all_goals simp only [List.length_cons]
  all_goals omega

theorem AllShowing.map_wordOf (h : AllShowing options) :
    options.map wordOf = options.map shownBy :=
  List.map_congr_left fun o ho => by simp [wordOf, h.isName_eq_false o ho]

/-- What arguments ask for that are options to show something and names. -/
theorem Ordinary.request_eq (h : Ordinary arguments) :
    request arguments =
      if lateNames arguments = [] then
        .ok (.run (Settings.taking { scripts := firstNames arguments } arguments))
      else .error (.unrecognized (lateNames arguments)) := by
  obtain ⟨before, body, hbefore, hbody, hsplit⟩ : ∃ before body, AllShowing before ∧
      body = arguments.dropWhile (!isName ·) ∧ arguments = before ++ body := by
    refine ⟨arguments.takeWhile (!isName ·), _, ?_, rfl, List.takeWhile_append_dropWhile.symm⟩
    refine Ordinary.allShowing (fun a ha => h a ((List.takeWhile_sublist _).subset ha)) ?_
    exact fun a ha => by simpa using of_mem_takeWhile ha
  have hrequest : request arguments =
      Taken.finish { settings := Settings.taking {} before } (body.map wordOf) := by
    rw [request, h.classify_eq]
    show Taken.finish {} (arguments.map wordOf) = _
    rw [hsplit, List.map_append, hbefore.map_wordOf, hbefore.finish_append]
  rw [hrequest, firstNames, lateNames, ← hbody]
  cases body with
  | nil =>
      rw [List.append_nil] at hsplit
      simp [Taken.finish, names, hsplit, Settings.taking]
  | cons a more =>
      have hname : isName a = true := by
        have hhead := List.head?_dropWhile_not (!isName ·) arguments
        rw [← hbody] at hhead
        simpa using hhead
      have hstretch : ∀ b ∈ a :: more.takeWhile isName, isName b = true :=
        List.forall_mem_cons.mpr ⟨hname, fun b hb => of_mem_takeWhile hb⟩
      -- A double dash is taken out of the names, but it would have been no name.
      have hnone : "--" ∉ a :: more.takeWhile isName :=
        fun hmem => absurd (hstretch _ hmem) (by decide)
      have hrest : Ordinary (more.dropWhile isName) := by
        refine h.of_suffix ?_
        rw [hsplit]
        exact ((List.dropWhile_suffix _).trans (List.suffix_cons a more)).trans
          (List.suffix_append before _)
      have hsettings (scripts : List String) :
          Settings.taking { Settings.taking {} before with scripts := scripts }
            (more.dropWhile isName) = Settings.taking { scripts := scripts } arguments := by
        have hlist : arguments =
            before ++ ((a :: more.takeWhile isName) ++ more.dropWhile isName) := by
          rw [hsplit, List.cons_append, List.takeWhile_append_dropWhile]
        rw [hlist, Settings.taking_append, Settings.taking_append,
          Settings.taking_of_names _ hstretch]
        rfl
      rw [finish_wordOf_of_isName hname, Taken.takeNames, if_neg (by simp),
        List.erase_of_not_mem hnone, hrest.finish_eq rfl, Taken.outcome, hsettings]
      simp [hname]

/-! ### Several scripts -/

section Run

variable {limits : Limits} {color : Bool} {files : Files} {input : String}

theorem run_of_several {settings : Settings} (hrequest : request arguments = .ok (.run settings))
    (hscripts : 2 ≤ settings.scripts.length) :
    run limits color files input arguments =
      { outcome := .error (.exit (some 64))
        out := scriptUsage
        reporter := { color := color } } := by
  obtain ⟨scripts, showTokens, showTrees⟩ := settings
  rcases scripts with _ | ⟨first, _ | ⟨second, more⟩⟩
  · exact absurd hscripts (by simp)
  · exact absurd hscripts (by simp)
  · rw [run, work, hrequest]
    exact Run.settled_of_exit rfl

theorem run_of_usageError {e : UsageError} (hrequest : request arguments = .error e) :
    run limits color files input arguments =
      { outcome := .error (.exit (some 2))
        err := usage ++ "lox: error: " ++ e.message ++ "\n"
        reporter := { color := color } } := by
  rw [run, work, hrequest]
  exact Run.settled_of_exit rfl

end Run

/-- More than one name runs nothing and reads nothing, wherever the options stand. If the
names stand together, that is said to be no use of the command, and the status is 64;
otherwise the names that come late are refused with status two. -/
theorem several_names_run_nothing (limits : Limits) (color : Bool) (files : Files)
    (input : String) (arguments : List String) (h : Ordinary arguments)
    (hnames : 2 ≤ (names arguments).length) :
    (Together arguments → run limits color files input arguments =
      { outcome := .error (.exit (some 64))
        out := "usage: lox [script]\n"
        reporter := { color := color } }) ∧
      (¬Together arguments → run limits color files input arguments =
        { outcome := .error (.exit (some 2))
          err := usage ++ "lox: error: unrecognized arguments: " ++
            " ".intercalate (lateNames arguments) ++ "\n"
          reporter := { color := color } }) := by
  have hrequest := h.request_eq
  rw [h.together_iff]
  constructor
  · intro hlate
    rw [if_pos hlate] at hrequest
    rw [h.names_eq, hlate, List.append_nil] at hnames
    exact run_of_several hrequest hnames
  · intro hlate
    rw [if_neg hlate] at hrequest
    exact run_of_usageError hrequest

/-- Names between options, and the same names with an option between them. -/
theorem several_names_run_nothing_interleaved :
    run .ample false shelf "" ["--ast", "greet.lox", "b.lox", "--tokens"] =
        { outcome := .error (.exit (some 64))
          out := "usage: lox [script]\n"
          reporter := { color := false } } ∧
      run .ample false shelf "" ["greet.lox", "--ast", "b.lox"] =
        { outcome := .error (.exit (some 2))
          err := usage ++ "lox: error: unrecognized arguments: b.lox\n"
          reporter := { color := false } } := by
  have hjoined : Ordinary ["--ast", "greet.lox", "b.lox", "--tokens"] := by simp [Ordinary, isName]
  have hparted : Ordinary ["greet.lox", "--ast", "b.lox"] := by simp [Ordinary, isName]
  have htogether : Together ["--ast", "greet.lox", "b.lox", "--tokens"] :=
    hjoined.together_iff.mpr (by decide)
  have hlate : lateNames ["greet.lox", "--ast", "b.lox"] = ["b.lox"] := by decide
  have hapart : ¬Together ["greet.lox", "--ast", "b.lox"] := by
    rw [hparted.together_iff, hlate]
    exact List.cons_ne_nil _ _
  obtain ⟨hsixtyfour, -⟩ := several_names_run_nothing .ample false shelf "" _ hjoined (by decide)
  obtain ⟨-, htwo⟩ := several_names_run_nothing .ample false shelf "" _ hparted (by decide)
  refine ⟨hsixtyfour htogether, ?_⟩
  have htext : " ".intercalate ["b.lox"] = "b.lox" := rfl
  rw [htwo hapart, hlate, htext, String.append_assoc, String.append_assoc]
  rfl

/-- An option between two names hides that there are two. -/
theorem option_between_names_hides_them :
    ¬∀ (color : Bool) (files : Files) (input : String) (arguments : List String),
      Ordinary arguments → 2 ≤ (names arguments).length →
        (run .ample color files input arguments).outcome = .error (.exit (some 64)) ∧
          (run .ample color files input arguments).out = "usage: lox [script]\n" ∧
          (run .ample color files input arguments).err = "" := by
  intro hall
  have hordinary : Ordinary ["a.lox", "--ast", "b.lox"] := by simp [Ordinary, isName]
  have hrequest : request ["a.lox", "--ast", "b.lox"] = .error (.unrecognized ["b.lox"]) :=
    hordinary.request_eq
  obtain ⟨houtcome, -, -⟩ := hall false shelf "" _ hordinary (by decide)
  rw [run_of_usageError hrequest] at houtcome
  simp at houtcome

end MiniLox.CommandLine
