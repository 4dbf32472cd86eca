import MiniLox.Text.Template

/-!
Templates with bare holes. If the text between the holes has no braces, such a
template can be filled, whatever is inserted: each hole takes the next
insertion as it is, and with colours the emphasised one. So the message is the
one that is put together from the text and the insertions, and no template of
that kind has a fault.
-/

namespace MiniLox.Text

/-- A text without braces. -/
def IsPlain (s : List Char) : Prop := '\x7b' ∉ s ∧ '\x7d' ∉ s

instance (s : List Char) : Decidable (IsPlain s) := inferInstanceAs (Decidable (_ ∧ _))

theorem IsPlain.append {s t : List Char} (hs : IsPlain s) (ht : IsPlain t) : IsPlain (s ++ t) := by
  simp only [IsPlain, List.mem_append, not_or] at *
  exact ⟨⟨hs.1, ht.1⟩, hs.2, ht.2⟩

namespace Template

variable {fillLayout : Numbering → List Char → Filled} {insertions : List String}
  {numbering : Numbering}

theorem after_append (s t : List Char) (filled : Filled) :
    (filled.after t).after s = filled.after (s ++ t) := by
  cases filled with
  | error fault => rfl
  | ok p => simp [Filled.after]

theorem fillWith_cons_of_ne {c : Char} (hopening : c ≠ '\x7b') (hclosing : c ≠ '\x7d')
    (cs : List Char) :
    fillWith fillLayout insertions numbering (c :: cs) =
      (fillWith fillLayout insertions numbering cs).after [c] := by
  rw [fillWith]
  · exact hclosing
  · exact hopening

/-- Text without braces is kept as it is. -/
theorem fillWith_append_of_isPlain {s : List Char} (hs : IsPlain s) (t : List Char) :
    fillWith fillLayout insertions numbering (s ++ t) =
      (fillWith fillLayout insertions numbering t).after s := by
  induction s with
  | nil =>
      cases h : fillWith fillLayout insertions numbering t <;> simp [h, Filled.after]
  | cons c cs ih =>
      simp only [IsPlain, List.mem_cons, not_or] at hs
      obtain ⟨⟨hopening, hcs⟩, hclosing, hcs'⟩ := hs
      rw [List.cons_append, fillWith_cons_of_ne (Ne.symm hopening) (Ne.symm hclosing),
        ih ⟨hcs, hcs'⟩, after_append]
      rfl

/-- The numbering when some bare holes have been filled. -/
def numberingAfter : Nat → Numbering
  | 0 => .undecided
  | n + 1 => .next (n + 1)

theorem fill_bare {n : Nat} {insertion : String} (h : insertions[n]? = some insertion) :
    Hole.fill fillLayout insertions (numberingAfter n) { name := [] } =
      .ok (insertion.toList, numberingAfter (n + 1)) := by
  have hresolve : resolve insertions (numberingAfter n) [] =
      .ok (insertion.toList, numberingAfter (n + 1)) := by
    have hindex : index [] (numberingAfter n) = .ok (n, numberingAfter (n + 1)) := by
      cases n <;> rfl
    have hselect : select insertion.toList [] = .ok insertion.toList := by rw [select]
    simp only [resolve, List.takeWhile_nil, List.dropWhile_nil, hindex, h, hselect]
  have happly : ({} : Layout).apply insertion.toList = insertion.toList := by
    simp [Layout.apply, Layout.keep, Align.before]
  simp only [Hole.fill, hresolve]
  show Except.ok (({} : Layout).apply insertion.toList, numberingAfter (n + 1)) = _
  rw [happly]

theorem fillWith_hole {n : Nat} {insertion : String} (h : insertions[n]? = some insertion)
    (s : List Char) :
    fillWith fillLayout insertions (numberingAfter n) ('\x7b' :: '\x7d' :: s) =
      (fillWith fillLayout insertions (numberingAfter (n + 1)) s).after insertion.toList := by
  have hread : Hole.read ('\x7d' :: s) = .ok ({ name := [] }, s) := rfl
  rw [fillWith]
  · split
    · next fault hfault => cases hread.symm.trans hfault
    · next hole rest hhole =>
        cases hread.symm.trans hhole
        rw [fill_bare h]
  · exact List.cons_ne_nil _ _
  · simp

/-- The insertions of a template and the text behind each of their holes. -/
abbrev Pieces := List (String × String)

/-- The template with a bare hole before each text but the first. -/
def ofPieces (first : String) (pieces : Pieces) : String :=
  first ++ String.join (pieces.map fun p => "\x7b\x7d" ++ p.2)

/-- The text with an insertion in each of the holes. -/
def joined (first : String) (pieces : Pieces) : String :=
  first ++ String.join (pieces.map fun p => p.1 ++ p.2)

theorem fillWith_ofPieces {pieces : Pieces} (hpieces : ∀ p ∈ pieces, IsPlain p.2.toList)
    (before : List String) (h : insertions = before ++ pieces.map Prod.fst) :
    fillWith fillLayout insertions (numberingAfter before.length)
        (pieces.flatMap fun p => '\x7b' :: '\x7d' :: p.2.toList) =
      .ok (pieces.flatMap fun p => p.1.toList ++ p.2.toList,
        numberingAfter (before.length + pieces.length)) := by
  induction pieces generalizing before with
  | nil =>
      rw [List.flatMap_nil, fillWith]
      rfl
  | cons p pieces ih =>
      have hhere : insertions[before.length]? = some p.1 := by simp [h]
      have hrest := ih (fun q hq => hpieces q (List.mem_cons_of_mem p hq)) (before ++ [p.1])
        (by simp [h])
      rw [List.length_append, List.length_singleton] at hrest
      rw [List.flatMap_cons, List.flatMap_cons, List.cons_append, List.cons_append,
        fillWith_hole hhere, fillWith_append_of_isPlain (hpieces p (List.mem_cons_self ..)), hrest]
      simp only [Filled.after, List.length_cons, List.append_assoc]
      congr 3
      omega

/-- A template with bare holes is filled by its insertions, one after the
other. -/
theorem format_ofPieces {first : String} {pieces : Pieces} (hfirst : IsPlain first.toList)
    (hpieces : ∀ p ∈ pieces, IsPlain p.2.toList) :
    format (ofPieces first pieces) (pieces.map Prod.fst) = .ok (joined first pieces) := by
  have htemplate : (ofPieces first pieces).toList =
      first.toList ++ pieces.flatMap fun p => '\x7b' :: '\x7d' :: p.2.toList := by
    simp [ofPieces, List.flatMap_def, Function.comp_def]
  have hfilled : fillWithin (pieces.map Prod.fst) levelLimit .undecided
      (pieces.flatMap fun p => '\x7b' :: '\x7d' :: p.2.toList) =
        .ok (pieces.flatMap fun p => p.1.toList ++ p.2.toList,
          numberingAfter (0 + pieces.length)) :=
    fillWith_ofPieces hpieces [] rfl
  have hall : fillWithin (pieces.map Prod.fst) levelLimit .undecided
      (first.toList ++ pieces.flatMap fun p => '\x7b' :: '\x7d' :: p.2.toList) =
        Filled.after first.toList (.ok (pieces.flatMap fun p => p.1.toList ++ p.2.toList,
          numberingAfter (0 + pieces.length))) := by
    rw [← hfilled]
    exact fillWith_append_of_isPlain hfirst _
  rw [format, htemplate, hall]
  show Except.ok (String.ofList _) = _
  congr 1
  rw [← String.toList_inj]
  simp [joined, List.flatMap_def, Function.comp_def]

end Template

/-- The message of a text and insertions in bold, with more text behind each of
them. -/
def Message.ofPieces (first : String) (pieces : Template.Pieces) : Message :=
  .plain first :: pieces.flatMap fun p => [.strong p.1, .plain p.2]

theorem Message.render_cons (color : Bool) (s : Span) (m : Message) :
    Message.render color (s :: m) = s.render color ++ Message.render color m := by
  simp [Message.render]

theorem Message.render_ofPieces (color : Bool) (first : String) (pieces : Template.Pieces) :
    (Message.ofPieces first pieces).render color =
      Template.joined first (pieces.map fun p => ((Span.strong p.1).render color, p.2)) := by
  have hplain (text : String) : (Span.plain text).render color = text := by
    cases color <;> rfl
  rw [ofPieces, render_cons, hplain, Template.joined]
  congr 1
  induction pieces with
  | nil => rfl
  | cons p pieces ih =>
      rw [List.flatMap_cons, List.map_cons, List.map_cons, String.join_cons, ← ih]
      simp only [List.cons_append, List.nil_append, render_cons, hplain, String.append_assoc]

/-- What a template with bare holes makes is the message of its text and its
insertions. -/
theorem Template.exists_fill_ofPieces {first : String} {pieces : Pieces} (color : Bool)
    (hfirst : IsPlain first.toList) (hpieces : ∀ p ∈ pieces, IsPlain p.2.toList) :
    ∃ m, fill color (Template.ofPieces first pieces) (pieces.map Prod.fst) = .ok m ∧
      m.text = (Message.ofPieces first pieces).text ∧
        m.render color = (Message.ofPieces first pieces).render color := by
  have hformat (color' : Bool) :
      format (Template.ofPieces first pieces)
          ((pieces.map Prod.fst).map fun s => (Span.strong s).render color') =
        .ok ((Message.ofPieces first pieces).render color') := by
    have hmap : (pieces.map Prod.fst).map (fun s => (Span.strong s).render color') =
        (pieces.map fun p => ((Span.strong p.1).render color', p.2)).map Prod.fst := by
      simp
    have hsame : Template.ofPieces first pieces =
        Template.ofPieces first (pieces.map fun p => ((Span.strong p.1).render color', p.2)) := by
      simp [Template.ofPieces, Function.comp_def]
    rw [Message.render_ofPieces, hmap, hsame]
    refine format_ofPieces hfirst fun p hp => ?_
    obtain ⟨q, hq, rfl⟩ := List.mem_map.mp hp
    exact hpieces q hq
  cases pieces with
  | nil =>
      refine ⟨[.plain (Template.ofPieces first [])], rfl, ?_⟩
      have hfirst' : Template.ofPieces first [] = first := by simp [Template.ofPieces]
      rw [hfirst']
      exact ⟨rfl, rfl⟩
  | cons p pieces =>
      have hplain : format (Template.ofPieces first (p :: pieces)) ((p :: pieces).map Prod.fst) =
          .ok (Message.ofPieces first (p :: pieces)).text := by
        have h := hformat false
        rwa [Message.render_false, Span.render_false, List.map_map] at h
      refine ⟨[{ text := (Message.ofPieces first (p :: pieces)).text
                 styled := (Message.ofPieces first (p :: pieces)).render color }], ?_, ?_, ?_⟩
      · simp only [fill, hplain, hformat color]
        rfl
      · simp [Message.text_cons]
      · cases color with
        | false => simp [Message.text_cons]
        | true => simp [Message.render, Span.render]

end MiniLox.Text
