import MiniLox.Proofs.Token.Places
import MiniLox.Report.Reporter

/-!
The line below a message. If the source at hand is the text that a token was
cut from, the place that a reporter finds is where the token stands: the token
is met at its column, so its text is never searched for. What is written is
the line of the text, and below it a mark for every character of the token.
-/

namespace MiniLox

open Text

/-! ### Underlining -/

/-- A line, and below it a mark for each character of a stretch: a caret for
the first one and tildes for the others. -/
def underlined (line : List Char) (column length : Nat) : String :=
  "  " ++ String.ofList line ++ "\n" ++
    String.ofList (List.replicate (2 + column) ' ' ++ '^' :: List.replicate (length - 1) '~')

theorem Reporter.text_underline (left right : List Char) {stretch : List Char}
    (hstretch : stretch ≠ []) :
    (underline (left ++ stretch ++ right) (left.length : Int)
      ((left.length : Int) + (stretch.length : Int))).text =
        underlined (left ++ stretch ++ right) left.length stretch.length := by
  have hpos : 0 < stretch.length := List.length_pos_iff.mpr hstretch
  have hstop : max ((left.length : Int) + (stretch.length : Int)) ((left.length : Int) + 1) =
      ((left ++ stretch).length : Int) := by
    rw [List.length_append]
    omega
  have hmarks : (((left ++ stretch).length : Int) - (left.length : Int) - 1).toNat =
      stretch.length - 1 := by
    rw [List.length_append]
    omega
  have hbefore : before (left ++ stretch ++ right) (left.length : Int) = left := by
    rw [List.append_assoc, before_append]
  have hblanks : List.replicate (2 + left.length) ' ' =
      ' ' :: ' ' :: List.replicate left.length ' ' := by
    rw [Nat.add_comm]
    rfl
  simp only [underline, hstop, hmarks, hbefore, between_append, after_append, Int.toNat_natCast,
    Message.text_cons, Message.text_nil, Span.text_plain, Span.text_alert]
  rw [← String.toList_inj]
  simp [underlined, hblanks]

namespace Token.StandsIn

variable {r : Reporter} {above left right below : List Char} {t : Token}

theorem lineOf?_eq (h : t.StandsIn above left right below)
    (hsource : r.source = lines (above ++ (left ++ t.lexeme.toList ++ right) ++ below)) :
    r.lineOf? t = some (left ++ t.lexeme.toList ++ right) := by
  have hindex : (t.line - 1).toNat = above.count '\n' := by
    rw [h.line]
    omega
  have hpos : 0 < t.line := by
    rw [h.line]
    omega
  rw [Reporter.lineOf?, if_pos hpos, hindex, hsource]
  exact h.isLine.getElem?_lines

/-- The token is met at its column, which is a place. -/
theorem met_at_column (h : t.StandsIn above left right below) :
    t.lexeme.toList.isPrefixOf (after (left ++ t.lexeme.toList ++ right) t.column) = true ∧
      t.column ≠ -1 := by
  rw [h.column]
  refine ⟨?_, by omega⟩
  rw [List.append_assoc, after_append, List.isPrefixOf_iff_prefix]
  exact List.prefix_append _ _

theorem startIn?_eq (h : t.StandsIn above left right below) :
    Reporter.startIn? t (left ++ t.lexeme.toList ++ right) = some (left.length : Int) := by
  obtain ⟨hmet, hcolumn⟩ := h.met_at_column
  simp only [Reporter.startIn?]
  rw [if_pos hmet, if_neg hcolumn, h.column]

/-- The place that is found for a token is where it stands. -/
theorem placeOf?_eq (h : t.StandsIn above left right below) (hne : t.lexeme ≠ "")
    (hsource : r.source = lines (above ++ (left ++ t.lexeme.toList ++ right) ++ below)) :
    r.placeOf? t = some (left ++ t.lexeme.toList ++ right, (left.length : Int)) := by
  rw [Reporter.placeOf?, if_neg (by simpa using hne), h.lineOf?_eq hsource]
  show (Reporter.startIn? t _).map _ = _
  rw [h.startIn?_eq]
  rfl

theorem text_pointer (h : t.StandsIn above left right below) (hne : t.lexeme ≠ "")
    (hsource : r.source = lines (above ++ (left ++ t.lexeme.toList ++ right) ++ below)) :
    (r.pointer t).text =
      underlined (left ++ t.lexeme.toList ++ right) left.length t.lexeme.length ++ "\n" := by
  have hchars : t.lexeme.toList ≠ [] := by simpa using hne
  rw [Reporter.pointer, h.placeOf?_eq hne hsource]
  show Message.text (Reporter.underline _ _ _ ++ _) = _
  rw [Message.text_append, ← String.length_toList, Reporter.text_underline left right hchars]
  rfl

/-- What is thrown about a token can be drawn, unless the token stands further
to the right than a row can be long. -/
theorem throwAny_eq_throw {d : Diagnostic} (h : t.StandsIn above left right below)
    (hd : d.token = some t) (hne : t.lexeme ≠ "")
    (hsource : r.source = lines (above ++ (left ++ t.lexeme.toList ++ right) ++ below))
    (hlength : left.length ≤ Reporter.rowLimit) : r.throwAny d = r.throw d := by
  have hfault : Reporter.rowFault? (left.length : Int) = none := by
    have hlimit : Reporter.rowLimit = 0xFFFFFFFF := rfl
    rw [Reporter.rowFault?, if_neg (by omega), if_neg (by omega)]
  have hplace : r.placeFault? t = none := by
    rw [Reporter.placeFault?, h.placeOf?_eq hne hsource]
    exact hfault
  rw [Reporter.throwAny, hd]
  simp only [Option.bind_some, hplace]

end Token.StandsIn

end MiniLox
