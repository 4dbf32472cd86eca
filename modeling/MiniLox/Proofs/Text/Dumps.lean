import Mathlib.Data.List.Forall2

/-!
Lines that can be told apart. Where the text of a thing in front of a newline says
which thing it is and where it ends, whatever follows, the lines of several things
say which things they are, even if the texts have newlines of their own.
-/

namespace MiniLox.Text

variable {α : Type} {text : α → String} {good : α → Prop} {related : α → α → Prop}

/-- A line for each thing. -/
def linesOf (text : α → String) (things : List α) : String :=
  String.join (things.map fun a => text a ++ "\n")

theorem toList_linesOf_cons (a : α) (things : List α) :
    (linesOf text (a :: things)).toList =
      (text a).toList ++ '\n' :: (linesOf text things).toList := by
  have hnewline : "\n".toList = ['\n'] := rfl
  simp [linesOf, hnewline]

theorem forall₂_of_linesOf_eq
    (hcut : ∀ {a b : α} {r r' : List Char}, good a → good b →
      (text a).toList ++ '\n' :: r = (text b).toList ++ '\n' :: r' → related a b ∧ r = r')
    {things things' : List α} (hgood : ∀ a ∈ things, good a) (hgood' : ∀ b ∈ things', good b)
    (h : linesOf text things = linesOf text things') : List.Forall₂ related things things' := by
  rw [← String.toList_inj] at h
  induction things generalizing things' with
  | nil =>
      cases things' with
      | nil => exact .nil
      | cons b things' =>
          rw [toList_linesOf_cons] at h
          exact absurd h.symm (by simp [linesOf])
  | cons a things ih =>
      rw [toList_linesOf_cons] at h
      cases things' with
      | nil => exact absurd h (by simp [linesOf])
      | cons b things' =>
          rw [toList_linesOf_cons] at h
          obtain ⟨ha, hthings⟩ := List.forall_mem_cons.mp hgood
          obtain ⟨hb, hthings'⟩ := List.forall_mem_cons.mp hgood'
          obtain ⟨hrelated, hrest⟩ := hcut ha hb h
          exact .cons hrelated (ih hthings hthings' hrest)

theorem linesOf_congr {things things' : List α}
    (h : List.Forall₂ (fun a b => text a = text b) things things') :
    linesOf text things = linesOf text things' := by
  have hlines :
      things.map (fun a => text a ++ "\n") = things'.map (fun a => text a ++ "\n") := by
    induction h with
    | nil => rfl
    | cons heq hrest ih => rw [List.map_cons, List.map_cons, heq, ih]
  rw [linesOf, linesOf, hlines]

end MiniLox.Text
