import MiniLox.Proofs.Text.Lines

/-!
The ends of lines. A file consists of lines, each with an end of one of three kinds, but the
last one may lack its end. The source text of a file is the file with every end made into a
newline, without the one at its very end. So the lines of the source text are those of the
file, blank ones included, and at every place as many lines have ended in the one as in the
other.
-/

namespace MiniLox.Text

/-- The ends that a line of a file can have. -/
inductive Ending where
  | newline
  | carriageReturn
  | both

def Ending.text : Ending → List Char
  | newline => ['\n']
  | carriageReturn => ['\r']
  | both => ['\r', '\n']

/-- A text with no end of a line in it. -/
structure Unbroken (s : List Char) : Prop where
  newline : '\n' ∉ s
  carriageReturn : '\r' ∉ s

/-- A file consists of lines with an end each, and of what stands behind the last end, which
is a line unless it is empty. A carriage return in front of a newline is no end of its own. -/
inductive Consists : List Char → List (List Char) → Prop where
  | empty : Consists [] []
  | unended {line : List Char} (hne : line ≠ []) (hline : Unbroken line) : Consists line [line]
  | ended {line rest : List Char} {more : List (List Char)} (ending : Ending)
      (hline : Unbroken line) (halone : ending = .carriageReturn → rest.head? ≠ some '\n')
      (hrest : Consists rest more) : Consists (line ++ (ending.text ++ rest)) (line :: more)

/-- The number of lines that end in a text. -/
def endings : List Char → Nat
  | [] => 0
  | '\r' :: '\n' :: cs => endings cs + 1
  | '\r' :: cs => endings cs + 1
  | '\n' :: cs => endings cs + 1
  | _ :: cs => endings cs

/-- A text without the newline at its end, if it has one there. -/
def withoutLastNewline (s : List Char) : List Char :=
  if s.getLast? = some '\n' then s.dropLast else s

variable {c : Char} {s line rest u v : List Char} {more ls : List (List Char)}

theorem Unbroken.nil : Unbroken [] := ⟨List.not_mem_nil, List.not_mem_nil⟩

theorem unbroken_cons : Unbroken (c :: s) ↔ c ≠ '\n' ∧ c ≠ '\r' ∧ Unbroken s := by
  constructor
  · rintro ⟨hnewline, hreturn⟩
    rw [List.mem_cons, not_or] at hnewline hreturn
    exact ⟨Ne.symm hnewline.1, Ne.symm hreturn.1, hnewline.2, hreturn.2⟩
  · rintro ⟨hnewline, hreturn, hs⟩
    exact ⟨by simp [hs.newline, Ne.symm hnewline], by simp [hs.carriageReturn, Ne.symm hreturn]⟩

/-! ### Unified texts -/

theorem unified_append_of_unbroken (h : Unbroken line) (rest : List Char) :
    unified (line ++ rest) = line ++ unified rest := by
  induction line with
  | nil => rfl
  | cons c line ih =>
      obtain ⟨-, hreturn, hline⟩ := unbroken_cons.mp h
      rw [List.cons_append, unified, ih hline, List.cons_append]
      · exact fun cs hc => absurd hc hreturn
      · exact hreturn

theorem unified_ending {ending : Ending}
    (halone : ending = .carriageReturn → rest.head? ≠ some '\n') :
    unified (ending.text ++ rest) = '\n' :: unified rest := by
  cases ending with
  | newline => rfl
  | both => rfl
  | carriageReturn =>
      cases rest with
      | nil => rfl
      | cons c rest =>
          have hc : c ≠ '\n' := fun hc => halone rfl (by rw [hc]; rfl)
          show unified ('\r' :: c :: rest) = _
          rw [unified]
          intro cs hcons
          exact hc (List.cons.inj hcons).1

theorem unified_eq_nil_iff : unified s = [] ↔ s = [] := by
  fun_cases unified s <;> simp

theorem endings_eq_count (s : List Char) : endings s = (unified s).count '\n' := by
  fun_induction unified s with
  | case1 => rfl
  | case2 cs ih => rw [endings, List.count_cons_self, ih]
  | case3 cs halone ih => rw [endings, List.count_cons_self, ih]; exact halone
  | case4 c cs halone hreturn ih =>
      by_cases hc : c = '\n'
      · subst hc
        rw [endings, List.count_cons_self, ih]
      · rw [endings, List.count_cons_of_ne hc, ih]
        · exact halone
        · exact hreturn
        · exact hc

/-- Where a unified text is cut, the text itself can be cut. -/
theorem exists_of_unified_eq (h : unified s = u ++ v) :
    ∃ before after, s = before ++ after ∧ unified before = u := by
  fun_induction unified s generalizing u with
  | case1 =>
      obtain ⟨rfl, -⟩ := List.nil_eq_append_iff.mp h
      exact ⟨[], [], rfl, rfl⟩
  | case2 cs ih =>
      rcases List.cons_eq_append_iff.mp h with ⟨rfl, -⟩ | ⟨u, rfl, htail⟩
      · exact ⟨[], _, rfl, rfl⟩
      · obtain ⟨before, after, rfl, rfl⟩ := ih htail
        exact ⟨'\r' :: '\n' :: before, after, rfl, rfl⟩
  | case3 cs halone ih =>
      rcases List.cons_eq_append_iff.mp h with ⟨rfl, -⟩ | ⟨u, rfl, htail⟩
      · exact ⟨[], _, rfl, rfl⟩
      · obtain ⟨before, after, rfl, rfl⟩ := ih htail
        refine ⟨'\r' :: before, after, rfl, ?_⟩
        rw [unified]
        rintro cs rfl
        exact halone (cs ++ after) rfl
  | case4 c cs halone hreturn ih =>
      rcases List.cons_eq_append_iff.mp h with ⟨rfl, -⟩ | ⟨u, rfl, htail⟩
      · exact ⟨[], _, rfl, rfl⟩
      · obtain ⟨before, after, rfl, rfl⟩ := ih htail
        refine ⟨c :: before, after, rfl, ?_⟩
        rw [unified]
        · exact fun cs hc => absurd hc hreturn
        · exact hreturn

/-! ### The end of a text -/

theorem withoutLastNewline_append (line : List Char) (h : s ≠ []) :
    withoutLastNewline (line ++ s) = line ++ withoutLastNewline s := by
  have hlast : (line ++ s).getLast? = s.getLast? := by
    rw [List.getLast?_append, List.getLast?_eq_some_getLast h, Option.some_or]
  rw [withoutLastNewline, withoutLastNewline, hlast, List.dropLast_append_of_ne_nil h]
  split <;> rfl

theorem withoutLastNewline_of_not_mem (h : '\n' ∉ s) : withoutLastNewline s = s :=
  if_neg fun hlast => h (List.mem_of_getLast? hlast)

theorem exists_eq_withoutLastNewline_append (s : List Char) :
    ∃ ending, s = withoutLastNewline s ++ ending := by
  unfold withoutLastNewline
  split
  · next hlast =>
      obtain ⟨u, rfl⟩ := List.getLast?_eq_some_iff.mp hlast
      exact ⟨['\n'], by rw [List.dropLast_concat]⟩
  · exact ⟨[], (List.append_nil s).symm⟩

/-! ### The lines of a file -/

theorem Consists.eq_nil_iff (h : Consists s ls) : ls = [] ↔ s = [] := by
  cases h with
  | empty => simp
  | unended hne => simp [hne]
  | ended ending => cases ending <;> simp [Ending.text]

/-- A file that is not empty has the lines of its source text. -/
theorem Consists.lines_eq (h : Consists s ls) (hne : s ≠ []) :
    lines (withoutLastNewline (unified s)) = ls := by
  induction h with
  | empty => contradiction
  | @unended line _ hline =>
      have hunified : unified line = line := by
        simpa [unified] using unified_append_of_unbroken hline []
      rw [hunified, withoutLastNewline_of_not_mem hline.newline, lines,
        List.splitOn_eq_singleton hline.newline]
  | @ended line rest more ending hline halone hrest ih =>
      rw [unified_append_of_unbroken hline, unified_ending halone]
      by_cases hnil : rest = []
      · subst hnil
        have hmore : more = [] := hrest.eq_nil_iff.mpr rfl
        have hlast : withoutLastNewline ['\n'] = [] := rfl
        rw [unified, withoutLastNewline_append line (List.cons_ne_nil _ _), hlast, hmore,
          List.append_nil, lines, List.splitOn_eq_singleton hline.newline]
      · have hunified : unified rest ≠ [] := mt unified_eq_nil_iff.mp hnil
        rw [withoutLastNewline_append line (List.cons_ne_nil _ _),
          ← List.singleton_append, withoutLastNewline_append ['\n'] hunified,
          List.singleton_append, lines_append_newline, ih hnil, lines,
          List.splitOn_eq_singleton hline.newline, List.singleton_append]

theorem withoutEnd_cons (hc : isLineEnd c = false) (line : List Char) :
    withoutEnd (c :: line) = c :: withoutEnd line := by
  have hlast : [c].dropWhile isLineEnd = [c] := by simp [hc]
  rw [withoutEnd, withoutEnd, List.reverse_cons, List.dropWhile_append, hlast]
  split
  · next hempty => simp [List.isEmpty_iff.mp hempty]
  · simp

theorem map_withoutEnd_prepend (hc : isLineEnd c = false) (ls : List (List Char)) :
    (prepend c ls).map withoutEnd = prepend c (ls.map withoutEnd) := by
  cases ls with
  | nil =>
      have honly : withoutEnd [c] = [c] := withoutEnd_cons hc []
      simp [prepend, honly]
  | cons line more => simp [prepend, withoutEnd_cons hc]

/-- One more character in front belongs to the first line, if no line ends with it. -/
theorem Consists.prepend (hc : isLineEnd c = false) (h : Consists s ls) :
    Consists (c :: s) (prepend c ls) := by
  have hunbroken {line : List Char} (hline : Unbroken line) : Unbroken (c :: line) := by
    simp only [isLineEnd, Bool.or_eq_false_iff, beq_eq_false_iff_ne] at hc
    exact unbroken_cons.mpr ⟨hc.2, hc.1, hline⟩
  cases h with
  | empty => exact .unended (List.cons_ne_nil c []) (hunbroken .nil)
  | unended _ hline => exact .unended (List.cons_ne_nil c _) (hunbroken hline)
  | ended ending hline halone hrest => exact .ended ending (hunbroken hline) halone hrest

/-- The lines that are found in a file are those that it consists of. -/
theorem consists_fileLines (s : List Char) : Consists s (fileLines s) := by
  unfold fileLines
  fun_induction unified s with
  | case1 => exact .empty
  | case2 cs ih => exact .ended .both .nil (fun h => nomatch h) ih
  | case3 cs halone ih =>
      refine .ended .carriageReturn .nil (fun _ hhead => ?_) ih
      obtain ⟨cs, rfl⟩ := List.head?_eq_some_iff.mp hhead
      exact halone cs rfl
  | case4 c cs _ hreturn ih =>
      by_cases hnewline : c = '\n'
      · subst hnewline
        exact .ended .newline .nil (fun h => nomatch h) ih
      · have hc : isLineEnd c = false := by simpa [isLineEnd, hnewline] using hreturn
        rw [endedLines, map_withoutEnd_prepend hc]
        · exact ih.prepend hc
        · exact hnewline

/-- The source text of a file is the file with every end of a line made into a newline, less
one newline at its end. -/
theorem sourceOfFile_eq (s : List Char) : sourceOfFile s = withoutLastNewline (unified s) := by
  by_cases hs : s = []
  · subst hs
    rfl
  · rw [sourceOfFile, ← (consists_fileLines s).lines_eq hs, lines, List.intercalate_splitOn]

/-- At every place of a source text as many lines have ended as at the same place of the
file. -/
theorem exists_place (h : withoutLastNewline (unified s) = u ++ v) :
    ∃ before after, s = before ++ after ∧ unified before = u ∧ endings before = u.count '\n' := by
  obtain ⟨ending, hending⟩ := exists_eq_withoutLastNewline_append (unified s)
  rw [h, List.append_assoc] at hending
  obtain ⟨before, after, hs, hbefore⟩ := exists_of_unified_eq hending
  exact ⟨before, after, hs, hbefore, by rw [endings_eq_count, hbefore]⟩

end MiniLox.Text
