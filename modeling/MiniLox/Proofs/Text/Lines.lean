import MiniLox.Text.Pieces
import MiniLox.Token.Scan

/-!
Where a stretch of a text stands. Every stretch without a newline lies in one
line of the text, and the number of newlines above that line is the number of
the line among the pieces of the text. A place that has been advanced over
the text before the stretch counts the same newlines, and its column is the
number of characters to the left of the stretch.
-/

namespace MiniLox

namespace Text

/-- A line of a text: a stretch without newlines that reaches from a newline
to a newline, or to an end of the text. -/
structure IsLine (above line below : List Char) : Prop where
  newline_not_mem : '\n' ∉ line
  above_ends : above = [] ∨ ∃ s, above = s ++ ['\n']
  below_begins : below = [] ∨ ∃ s, below = '\n' :: s

theorem length_lines (s : List Char) : (lines s).length = s.count '\n' + 1 := by
  induction s with
  | nil => rfl
  | cons c s ih =>
      rw [lines, List.splitOn_cons_eq_if_modifyHead, List.count_cons]
      split
      · rw [List.length_cons, ← lines, ih]
      · rw [List.length_modifyHead, ← lines, ih, Nat.add_zero]

theorem lines_append_newline (s t : List Char) : lines (s ++ '\n' :: t) = lines s ++ lines t :=
  List.splitOn_append_cons_self s t

/-- A line is the piece of the text with as many pieces before it as there
are newlines above the line. -/
theorem IsLine.getElem?_lines {above line below : List Char} (h : IsLine above line below) :
    (lines (above ++ line ++ below))[above.count '\n']? = some line := by
  have hfirst : (lines (line ++ below))[0]? = some line := by
    rcases h.below_begins with rfl | ⟨s, rfl⟩
    · rw [List.append_nil, lines, List.splitOn_eq_singleton h.newline_not_mem]
      rfl
    · rw [lines, List.splitOn_append_cons_self_of_not_mem h.newline_not_mem]
      rfl
  rcases h.above_ends with rfl | ⟨s, rfl⟩
  · exact hfirst
  · have hcount : (s ++ ['\n']).count '\n' = (lines s).length := by
      rw [length_lines, List.count_append, List.count_singleton_self]
    rw [List.append_assoc, List.append_assoc, List.singleton_append, lines_append_newline, hcount,
      List.getElem?_append_right (Nat.le_refl _), Nat.sub_self]
    exact hfirst

/-- What stands behind the last newline of a text. -/
theorem exists_last_line (s : List Char) :
    ∃ above left, s = above ++ left ∧ '\n' ∉ left ∧ (above = [] ∨ ∃ t, above = t ++ ['\n']) := by
  induction s with
  | nil => exact ⟨[], [], rfl, List.not_mem_nil, .inl rfl⟩
  | cons c s ih =>
      obtain ⟨above, left, rfl, hleft, rfl | ⟨t, rfl⟩⟩ := ih
      · by_cases hc : c = '\n'
        · subst hc
          exact ⟨['\n'], left, rfl, hleft, .inr ⟨[], rfl⟩⟩
        · exact ⟨[], c :: left, rfl, by simp [hleft, Ne.symm hc], .inl rfl⟩
      · exact ⟨c :: t ++ ['\n'], left, rfl, hleft, .inr ⟨c :: t, rfl⟩⟩

/-- The last line of a text: what stands behind its last newline. -/
def lastLine (s : List Char) : List Char := (s.reverse.takeWhile (· ≠ '\n')).reverse

theorem lastLine_append {above left : List Char} (hleft : '\n' ∉ left)
    (habove : above = [] ∨ ∃ t, above = t ++ ['\n']) : lastLine (above ++ left) = left := by
  have hall : ∀ c ∈ left.reverse, decide (c ≠ '\n') = true := by
    intro c hc
    rw [decide_eq_true_eq]
    rintro rfl
    exact hleft (List.mem_reverse.mp hc)
  rw [lastLine, List.reverse_append, List.takeWhile_append_of_pos hall]
  rcases habove with rfl | ⟨t, rfl⟩ <;> simp

/-- The last line is the last of the pieces. -/
theorem getLast?_lines (s : List Char) : (lines s).getLast? = some (lastLine s) := by
  obtain ⟨above, left, rfl, hleft, habove⟩ := exists_last_line s
  rw [lastLine_append hleft habove]
  have hlast : lines left = [left] := List.splitOn_eq_singleton hleft
  rcases habove with rfl | ⟨t, rfl⟩
  · rw [List.nil_append, hlast]
    rfl
  · rw [List.append_assoc, List.singleton_append, lines_append_newline, hlast]
    exact List.getLast?_concat

/-- What stands before the first newline of a text. -/
theorem exists_first_line (s : List Char) :
    ∃ right below, s = right ++ below ∧ '\n' ∉ right ∧ (below = [] ∨ ∃ t, below = '\n' :: t) := by
  induction s with
  | nil => exact ⟨[], [], rfl, List.not_mem_nil, .inl rfl⟩
  | cons c s ih =>
      by_cases hc : c = '\n'
      · subst hc
        exact ⟨[], '\n' :: s, rfl, List.not_mem_nil, .inr ⟨s, rfl⟩⟩
      · obtain ⟨right, below, rfl, hright, hbelow⟩ := ih
        exact ⟨c :: right, below, rfl, by simp [hright, Ne.symm hc], hbelow⟩

/-- A stretch without newlines lies in one line of the text. -/
theorem exists_isLine {u : List Char} (hu : '\n' ∉ u) (s t : List Char) :
    ∃ above left right below, s = above ++ left ∧ t = right ++ below ∧
      IsLine above (left ++ u ++ right) below := by
  obtain ⟨above, left, hs, hleft, habove⟩ := exists_last_line s
  obtain ⟨right, below, ht, hright, hbelow⟩ := exists_first_line t
  exact ⟨above, left, right, below, hs, ht, ⟨by simp [hu, hleft, hright], habove, hbelow⟩⟩

end Text

namespace Position

theorem line_advance (p : Position) (s : List Char) :
    (p.advance s).line = p.line + s.count '\n' := by
  induction s generalizing p with
  | nil => rfl
  | cons c s ih =>
      rw [advance_cons, ih, List.count_cons, step]
      split
      · next hc =>
        simp only [hc, beq_self_eq_true, if_true]
        omega
      · next hc => simp [hc]

theorem column_advance_of_not_mem (p : Position) {s : List Char} (hs : '\n' ∉ s) :
    (p.advance s).column = p.column + s.length := by
  induction s generalizing p with
  | nil => rfl
  | cons c s ih =>
      have hc : c ≠ '\n' := fun hc => hs (by simp [hc])
      rw [advance_cons, ih _ fun hmem => hs (List.mem_cons_of_mem c hmem), step, if_neg hc]
      show p.column + 1 + s.length = p.column + (s.length + 1)
      omega

/-- Behind a newline the columns start anew. -/
theorem column_advance_newline (p : Position) (s : List Char) :
    (p.advance (s ++ ['\n'])).column = 0 := by
  rw [advance_append]
  rfl

/-- The column is the number of characters to the left in the same line. -/
theorem column_advance {above left : List Char} (hleft : '\n' ∉ left)
    (habove : above = [] ∨ ∃ s, above = s ++ ['\n']) :
    (({} : Position).advance (above ++ left)).column = left.length := by
  rw [advance_append, column_advance_of_not_mem _ hleft]
  rcases habove with rfl | ⟨s, rfl⟩
  · exact Nat.zero_add _
  · rw [column_advance_newline, Nat.zero_add]

theorem column_advance_eq (s : List Char) :
    (({} : Position).advance s).column = (Text.lastLine s).length := by
  obtain ⟨above, left, rfl, hleft, habove⟩ := Text.exists_last_line s
  rw [Text.lastLine_append hleft habove, column_advance hleft habove]

end Position

end MiniLox
