import Mathlib.Data.List.TakeWhile
import MiniLox.Text.Classes

/-!
Stripped texts. A text without white space at either end has none at its first
and none at its last character, and that is also enough: such a text is left
as it is.
-/

namespace MiniLox.Text

variable {s t : List Char}

theorem dropWhile_isBlank_of_head? (h : ∀ c ∈ s.head?, isBlank c = false) :
    s.dropWhile isBlank = s := by
  cases s with
  | nil => rfl
  | cons c s => simp [h c rfl]

/-- Stripping takes nothing but the blanks before the first other character and
those behind the last. -/
theorem strip_prefix (s : List Char) : strip s <+: s.dropWhile isBlank := by
  have hsuffix := List.dropWhile_suffix (l := (s.dropWhile isBlank).reverse) isBlank
  have hprefix := List.reverse_prefix.mpr hsuffix
  rwa [List.reverse_reverse] at hprefix

theorem head?_strip {c : Char} (h : c ∈ (strip s).head?) : isBlank c = false := by
  obtain ⟨behind, hs⟩ := strip_prefix s
  obtain ⟨rest, hstrip⟩ := List.head?_eq_some_iff.mp h
  have hhead := List.head?_dropWhile_not isBlank s
  rw [← hs, hstrip] at hhead
  exact hhead

theorem getLast?_strip {c : Char} (h : c ∈ (strip s).getLast?) : isBlank c = false := by
  rw [strip, List.getLast?_reverse] at h
  have hhead := List.head?_dropWhile_not isBlank (s.dropWhile isBlank).reverse
  rw [h] at hhead
  exact hhead

/-- A text that neither starts nor ends with a blank is stripped. -/
theorem strip_eq_self (hhead : ∀ c ∈ s.head?, isBlank c = false)
    (hlast : ∀ c ∈ s.getLast?, isBlank c = false) : strip s = s := by
  rw [strip, dropWhile_isBlank_of_head? hhead, dropWhile_isBlank_of_head?, List.reverse_reverse]
  rwa [List.head?_reverse]

theorem strip_strip (s : List Char) : strip (strip s) = strip s :=
  strip_eq_self (fun _ => head?_strip) (fun _ => getLast?_strip)

/-- What is no blank is not stripped. -/
theorem isBlank_of_strip_eq_nil (h : strip s = []) {c : Char} (hc : c ∈ s) : isBlank c = true := by
  have hall := List.dropWhile_eq_nil_iff.mp (List.reverse_eq_nil_iff.mp h)
  have hdrop : s.dropWhile isBlank = [] := by
    cases hrest : s.dropWhile isBlank with
    | nil => rfl
    | cons d rest =>
        have hhead := List.head?_dropWhile_not isBlank s
        have hd : isBlank d = true := hall d (by simp [hrest])
        rw [hrest] at hhead
        exact absurd (hd.symm.trans hhead) Bool.noConfusion
  exact List.dropWhile_eq_nil_iff.mp hdrop c hc

/-- At the end of a stripped text there are no blanks. -/
theorem eq_nil_of_suffix_strip (h : t <:+ strip s) (hall : ∀ c ∈ t, isBlank c = true) :
    t = [] := by
  cases hlast : t.getLast? with
  | none => exact List.getLast?_eq_none_iff.mp hlast
  | some c =>
      obtain ⟨before, hs⟩ := h
      have hblank : isBlank c = true := hall c (List.mem_of_getLast? hlast)
      have hkept : isBlank c = false := by
        refine getLast?_strip (s := s) ?_
        rw [← hs, List.getLast?_append, hlast]
        rfl
      exact absurd (hblank.symm.trans hkept) Bool.noConfusion

end MiniLox.Text
