import MiniLox.Proofs.Token.Places
import MiniLox.Proofs.Token.Stops

/-!
Tokens written down again. No token goes on over a blank, whatever token it
is, and a blank is an item of its own that makes no token. So the lexemes of
the tokens of a text can be moved apart by any blanks, and the text that they
make then has the same tokens, only elsewhere.
-/

namespace MiniLox

namespace Lexeme

/-- A text of blanks alone. -/
def AllBlank (s : List Char) : Prop := ∀ c ∈ s, isBlank c = true

variable {kind : Kind} {literal : Option Value} {u v gap : List Char}
  {items : List (Lexeme × List Char)}

/-- A token ends before a blank and at the end of a text. -/
theorem not_carriesOn_of_isBlank (hv : ∀ c ∈ v.head?, isBlank c = true) :
    ¬CarriesOn (.token kind literal) u v := by
  intro h
  cases h with
  | word hkind hc =>
      obtain ⟨hdigit, hletter⟩ := isBlank_of (hv _ rfl)
      rw [isWordPart, hdigit, hletter] at hc
      contradiction
  | digit hc =>
      rw [(isBlank_of (hv _ rfl)).1] at hc
      contradiction
  | point | equal | slash => exact absurd (hv _ rfl) (by decide)

theorem Spells.longest_of_isBlank (h : Spells (.token kind literal) u)
    (hv : ∀ c ∈ v.head?, isBlank c = true) : Longest u v :=
  h.longest_iff.mpr (not_carriesOn_of_isBlank hv)

theorem spells_blank {c : Char} (h : isBlank c = true) : Spells .blank [c] :=
  (Takes.intro (next_of_isBlank h [])).spells

/-- Blanks in front of a text are items of their own. -/
theorem Split.append_blanks (h : Split items v) (hgap : AllBlank gap) :
    Split (gap.map (fun c => (.blank, [c])) ++ items) (gap ++ v) := by
  induction gap with
  | nil => exact h
  | cons c gap ih =>
      have hspells : Spells .blank [c] := spells_blank (hgap c (List.mem_cons_self ..))
      refine .cons hspells (hspells.longest_iff.mpr ?_)
        (ih fun d hd => hgap d (List.mem_cons_of_mem c hd))
      exact fun hcarries => nomatch hcarries

end Lexeme

namespace Token

open Lexeme

/-- The lexemes of some tokens, each with a gap behind it. -/
def spaced (tokens : List Token) (gaps : List String) : String :=
  String.join (List.zipWith (fun t gap => t.lexeme ++ gap) tokens gaps)

theorem filterMap_content?_blanks (gap : List Char) (items : List (Lexeme × List Char)) :
    (gap.map (fun c => (Lexeme.blank, [c])) ++ items).filterMap content? =
      items.filterMap content? := by
  rw [List.filterMap_append, List.filterMap_map]
  simp [Function.comp_def, content?]

theorem toList_spaced_cons (t : Token) (tokens : List Token) (gap : String) (gaps : List String) :
    (spaced (t :: tokens) (gap :: gaps)).toList =
      t.lexeme.toList ++ (gap.toList ++ (spaced tokens gaps).toList) := by
  rw [spaced, List.zipWith_cons_cons, String.join_cons, String.toList_append,
    String.toList_append, List.append_assoc]
  rfl

/-- Behind a lexeme there is a blank, or nothing more. -/
theorem isBlank_of_behind {gap : String} {gaps : List String} (hgap : AllBlank gap.toList)
    (hgaps : ∀ other ∈ (gap :: gaps).dropLast, other ≠ "") (tokens : List Token) :
    ∀ c ∈ (gap.toList ++ (spaced tokens gaps).toList).head?, isBlank c = true := by
  intro c hc
  cases hchars : gap.toList with
  | cons d rest =>
      obtain rfl : d = c := by simpa [hchars] using hc
      exact hgap d (by simp [hchars])
  | nil =>
      have hempty : gap = "" := String.toList_inj.mp hchars
      cases gaps with
      | nil => simp [hchars, spaced] at hc
      | cons next gaps => exact absurd hempty (hgaps gap (List.mem_cons_self ..))

/-- Lexemes with blanks between them are the items of a text, and the blanks
make no tokens. Only behind the last lexeme the gap may be empty. -/
theorem exists_split_spaced {tokens : List Token} {gaps : List String}
    (hspells : ∀ t ∈ tokens, Spells (.token t.kind t.literal) t.lexeme.toList)
    (hlength : gaps.length = tokens.length) (hblank : ∀ gap ∈ gaps, AllBlank gap.toList)
    (hgaps : ∀ gap ∈ gaps.dropLast, gap ≠ "") :
    ∃ items, Split items (spaced tokens gaps).toList ∧
      items.filterMap content? = tokens.map content := by
  induction tokens generalizing gaps with
  | nil =>
      obtain rfl := List.eq_nil_of_length_eq_zero hlength
      exact ⟨[], .nil, rfl⟩
  | cons t tokens ih =>
      obtain ⟨gap, gaps, rfl⟩ := List.exists_cons_of_length_eq_add_one hlength
      have hgap : AllBlank gap.toList := hblank gap (List.mem_cons_self ..)
      have hrest : ∀ other ∈ gaps.dropLast, other ≠ "" := by
        cases gaps with
        | nil => exact fun other hother => nomatch hother
        | cons next gaps => exact fun other hother => hgaps other (List.mem_cons_of_mem gap hother)
      obtain ⟨items, hsplit, hitems⟩ := ih (fun u hu => hspells u (List.mem_cons_of_mem t hu))
        (Nat.succ.inj hlength) (fun other hother => hblank other (List.mem_cons_of_mem gap hother))
        hrest
      have htoken := hspells t (List.mem_cons_self ..)
      refine ⟨(.token t.kind t.literal, t.lexeme.toList) ::
        (gap.toList.map (fun c => (.blank, [c])) ++ items), ?_, ?_⟩
      · rw [toList_spaced_cons]
        exact .cons htoken (htoken.longest_of_isBlank (isBlank_of_behind hgap hgaps tokens))
          (hsplit.append_blanks hgap)
      · simp only [List.filterMap_cons, content?, String.ofList_toList, filterMap_content?_blanks,
          hitems]
        rfl

/-- The lexemes of the tokens of a text scan to these tokens again, whatever
blanks stand between them, in front of them and behind them. -/
theorem scan_spaced_lexemes (source : String) (tokens : List Token)
    (hscan : scan source = .ok tokens) :
    ∃ body ending, tokens = body ++ [ending] ∧ ending.kind = .endOfText ∧
      (∀ t ∈ body, t.kind ≠ .endOfText) ∧
        ∀ (front : String) (gaps : List String), gaps.length = body.length →
          (∀ gap ∈ front :: gaps, AllBlank gap.toList) → (∀ gap ∈ gaps.dropLast, gap ≠ "") →
            ∃ tokens', scan (front ++ spaced body gaps) = .ok tokens' ∧
              tokens'.length = tokens.length ∧ tokens'.map content = tokens.map content := by
  obtain ⟨items, hsplit, htokens⟩ := scanFrom_eq_ok_iff.mp hscan
  have hbody : ∀ t ∈ stamps {} items, t.kind ≠ .endOfText :=
    fun t ht => kind_of_mem_stamps hsplit.leading ht
  obtain rfl := htokens.trans (ofItems_eq_stamps {} items)
  refine ⟨stamps {} items, _, rfl, rfl, hbody, fun front gaps hlength hblank hgaps => ?_⟩
  have hspells : ∀ t ∈ stamps {} items, Spells (.token t.kind t.literal) t.lexeme.toList := by
    intro t ht
    obtain ⟨before, hcut⟩ := exists_cutFrom hscan (List.mem_append_left _ ht) (hbody t ht)
    exact hcut.spells
  obtain ⟨others, hothers, hcontent⟩ := exists_split_spaced hspells hlength
    (fun gap hgap => hblank gap (List.mem_cons_of_mem front hgap)) hgaps
  have hwhole := hothers.append_blanks (hblank front (List.mem_cons_self ..))
  rw [← String.toList_append] at hwhole
  have hsame : (ofItems {} (front.toList.map (fun c => (.blank, [c])) ++ others)).map content =
      (stamps {} items ++ [atEnd (({} : Position).advance (covered items))]).map content := by
    rw [map_content_ofItems, filterMap_content?_blanks, hcontent, List.map_append]
    rfl
  refine ⟨_, scanFrom_eq_ok_iff.mpr ⟨_, hwhole, rfl⟩, ?_, hsame⟩
  simpa only [List.length_map] using congrArg List.length hsame

/-- Half operators, a point and slashes behind a number, and a string with the
mark of a comment and a newline in it. -/
theorem scan_spaced_lexemes_operators :
    ∃ tokens tokens', scan "1./ /!= =\"//\n\"// c" = .ok tokens ∧
      scan "\t1\n. /\r\n/ !=\n=\t \"//\n\"" = .ok tokens' ∧
        tokens'.length = tokens.length ∧ tokens'.map content = tokens.map content := by
  obtain ⟨tokens, hscan⟩ := scanError?_eq_none_iff.mp
    (show scanError? "1./ /!= =\"//\n\"// c" = none by decide +kernel)
  have hlexemes : (scan "1./ /!= =\"//\n\"// c").toOption.map (List.map lexeme) =
      some (["1", ".", "/", "/", "!=", "=", "\"//\n\""] ++ [""]) := by
    decide +kernel
  rw [hscan] at hlexemes
  obtain ⟨body, ending, rfl, -, -, hspaced⟩ := scan_spaced_lexemes _ tokens hscan
  have hall : (body ++ [ending]).map lexeme =
      ["1", ".", "/", "/", "!=", "=", "\"//\n\""] ++ [""] :=
    Option.some.inj hlexemes
  rw [List.map_append] at hall
  have hbody := (List.append_inj' hall rfl).1
  obtain ⟨tokens', hscan', hlength, hcontent⟩ :=
    hspaced "\t" ["\n", " ", "\r\n", " ", "\n", "\t ", ""]
      (by simpa using (congrArg List.length hbody).symm) (by simp [AllBlank, isBlank])
      (by decide)
  have htext : "\t" ++ spaced body ["\n", " ", "\r\n", " ", "\n", "\t ", ""] =
      "\t1\n. /\r\n/ !=\n=\t \"//\n\"" := by
    rw [spaced, ← List.zipWith_map_left, hbody]
    decide
  rw [htext] at hscan'
  exact ⟨_, tokens', hscan, hscan', hlength, hcontent⟩

end Token

end MiniLox
