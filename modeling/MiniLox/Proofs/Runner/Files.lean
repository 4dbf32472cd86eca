import MiniLox.Proofs.Evaluation.Blame
import MiniLox.Proofs.Runner.Course
import MiniLox.Proofs.Text.Endings
import MiniLox.Proofs.Token.Positions

/-!
Runs of files. What runs is the text that the bytes of the file stand for, with every end of a
line made into a newline and without one newline at its end; so which ends the lines of the
file have cannot be told from its run. The lines that messages name are lines of the file. If
the bytes stand for no text, nothing runs.
-/

namespace MiniLox

open Lexeme Text
open Grammar hiding Failure

/-! ### Bytes -/

theorem fromUTF8?_toUTF8 (text : String) : String.fromUTF8? text.toUTF8 = some text :=
  dif_pos text.isValidUTF8

theorem fromUTF8?_eq_none {bytes : ByteArray} (h : ∀ text : String, bytes ≠ text.toUTF8) :
    String.fromUTF8? bytes = none :=
  dif_neg fun hvalid => h (String.fromUTF8 bytes hvalid) rfl

namespace Runner

variable {s : Runner} {r : Reporter} {files : Files} {bytes : ByteArray} {file : String}
  {text : List Char} {source : String} {tokens : List Token} {t : Token} {u v : List Char}

/-- The source text of a file: every end of a line is made into a newline, and one newline at
the end is left out. -/
def sourceOf (file : String) : String :=
  String.ofList (withoutLastNewline (unified file.toList))

theorem toList_sourceOf (file : String) :
    (sourceOf file).toList = withoutLastNewline (unified file.toList) :=
  String.toList_ofList

theorem runFile_of_text (hpath : '\x00' ∉ s.path.toList) (hfile : files s.path = some file.toUTF8) :
    s.runFile files r = s.run r (sourceOf file) := by
  have hnul : s.path.toList.contains '\x00' = false := by simpa using hpath
  simp only [runFile, hnul, hfile, fromUTF8?_toUTF8, sourceOfFile_eq]
  rfl

theorem runFile_of_no_text (hpath : '\x00' ∉ s.path.toList) (hfile : files s.path = some bytes)
    (hbytes : ∀ file : String, bytes ≠ file.toUTF8) :
    s.runFile files r = { outcome := .error (fileComplaint s.path "decoded"), reporter := r } := by
  have hnul : s.path.toList.contains '\x00' = false := by simpa using hpath
  simp only [runFile, hnul, hfile, fromUTF8?_eq_none hbytes]
  rfl

/-! ### Lines -/

/-- The number of a line counts the lines of a file: as many of them, but for the last, end in
front of the place of the file that has the given characters before it. -/
def CountsLines (text : List Char) (line : Int) (u : List Char) : Prop :=
  ∃ before after, text = before ++ after ∧ unified before = u ∧
    line = ((endings before + 1 : Nat) : Int)

theorem countsLines_of_append (h : withoutLastNewline (unified text) = u ++ v) :
    CountsLines text ((u.count '\n' + 1 : Nat) : Int) u := by
  obtain ⟨before, after, htext, hbefore, hendings⟩ := exists_place h
  exact ⟨before, after, htext, hbefore, by rw [hendings]⟩

/-- The lines that the messages of a run name are those of a file. A message is about a token,
and the line is that on which the token ends, or it is about a character where no token
starts, or about the end of the text. -/
structure NamesLinesOf (s : Runner) (text : List Char) (source : String) : Prop where
  unexpected : ∀ {e c}, Token.scan source = .error e → e.fault = .unexpected c →
    ∃ items behind, Leading items source.toList (c :: behind) ∧
      CountsLines text e.line (covered items)
  unterminated : ∀ {e}, Token.scan source = .error e → e.fault = .unterminated →
    CountsLines text e.line source.toList
  token : ∀ {tokens t}, Token.scan source = .ok tokens → t ∈ tokens → t.kind ≠ .endOfText →
    ∃ before, t.CutFrom source.toList before ∧
      CountsLines text t.line (before ++ t.lexeme.toList)
  ending : ∀ {tokens t}, Token.scan source = .ok tokens → t ∈ tokens → t.kind = .endOfText →
    CountsLines text t.line source.toList
  mistake : ∀ {tokens e}, Token.scan source = .ok tokens → e ∈ (s.program tokens).errors →
    e.token ∈ tokens ∧ e.report.line = e.token.line
  failure : ∀ {tokens e}, Token.scan source = .ok tokens →
    (s.machine.run (s.program tokens).statements).failure = some (.error e) →
      e.token ∈ tokens ∧ e.diagnostic.line = some e.token.line

theorem countsLines_source (h : source.toList = withoutLastNewline (unified text)) :
    CountsLines text ((source.toList.count '\n' + 1 : Nat) : Int) source.toList :=
  countsLines_of_append (v := []) (by rw [← h, List.append_nil])

/-- The messages of a source text name the lines of its file. -/
theorem namesLinesOf (h : source.toList = withoutLastNewline (unified text)) :
    s.NamesLinesOf text source where
  unexpected {e c} hscan hfault := by
    cases Token.located_of_scan_error hscan with
    | @unexpected items c' behind hleading =>
        obtain rfl : c' = c := by simpa using hfault
        refine ⟨items, behind, hleading, countsLines_of_append (v := c' :: behind) ?_⟩
        rw [← h, hleading.covered_append]
    | unterminated => contradiction
  unterminated {e} hscan hfault := by
    cases Token.located_of_scan_error hscan with
    | unexpected => contradiction
    | unterminated => exact countsLines_source h
  token {tokens t} hscan ht hkind := by
    obtain ⟨before, hcut⟩ := Token.exists_cutFrom hscan ht hkind
    obtain ⟨behind, hsource⟩ := hcut.eq_append
    refine ⟨before, hcut, ?_⟩
    rw [hcut.line_eq]
    exact countsLines_of_append (hsource ▸ h.symm)
  ending {tokens t} hscan ht hkind := by
    obtain ⟨items, hsplit, htokens⟩ := Token.scanFrom_eq_ok_iff.mp hscan
    obtain ⟨hstamps, hlaid⟩ := Token.laid_of_split hscan hsplit htokens
    obtain ⟨_, -, hending⟩ := hlaid.ends
    rw [hstamps, hending] at ht
    rcases List.mem_append.mp ht with ht | ht
    · exact absurd hkind (hlaid.kind_ne t ht)
    · obtain rfl := List.mem_singleton.mp ht
      exact countsLines_source h
  mistake {tokens e} hscan he := by
    obtain ⟨items, hsplit, htokens⟩ := Token.scanFrom_eq_ok_iff.mp hscan
    obtain ⟨rfl, hlaid⟩ := Token.laid_of_split hscan hsplit htokens
    exact ⟨Program.token_mem_of_mem_errors hlaid.kind_ne rfl he, rfl⟩
  failure hscan hfailure := ⟨(Machine.token_of_run_error hfailure).1, rfl⟩

/-! ### Files -/

/-- The ends of lines do not matter to the run of a file. If its bytes stand for a text, the run
is that of the source text, and another file with the same source text runs alike; the lines of
the source text are those of the file, and so are the lines that messages name. If the bytes
stand for no text, that is all that the run says. -/
theorem line_endings_do_not_matter (s : Runner) (r : Reporter) (files : Files)
    (hpath : '\x00' ∉ s.path.toList) :
    (∀ file : String, files s.path = some file.toUTF8 →
      s.runFile files r = s.run r (sourceOf file) ∧
        (∀ (others : Files) (other : String), others s.path = some other.toUTF8 →
          sourceOf other = sourceOf file → s.runFile others r = s.runFile files r) ∧
        (file ≠ "" → ∀ ls, Consists file.toList ls ↔ ls = lines (sourceOf file).toList) ∧
        s.NamesLinesOf file.toList (sourceOf file)) ∧
      ∀ bytes, files s.path = some bytes → (∀ file : String, bytes ≠ file.toUTF8) →
        s.runFile files r =
          { outcome := .error (fileComplaint s.path "decoded")
            out := ""
            err := ""
            reporter := r } := by
  refine ⟨fun file hfile => ⟨runFile_of_text hpath hfile, ?_, ?_, ?_⟩,
    fun bytes hfile hbytes => runFile_of_no_text hpath hfile hbytes⟩
  · intro others other hother hsource
    rw [runFile_of_text hpath hother, runFile_of_text hpath hfile, hsource]
  · intro hne ls
    have hnil : file.toList ≠ [] := mt String.toList_eq_nil_iff.mp hne
    rw [toList_sourceOf]
    constructor
    · exact fun h => (h.lines_eq hnil).symm
    · rintro rfl
      have hconsists := consists_fileLines file.toList
      rwa [← hconsists.lines_eq hnil] at hconsists
  · exact namesLinesOf (toList_sourceOf file)

/-- A file with a failure on its fourth line, whose lines end in all three ways. -/
def mixed : String := "print \"a\";\r\n\n\rprint 1 - nil;\r"

/-- The text of the file with newlines only, and none at its end. -/
def plain : String := "print \"a\";\n\n\nprint 1 - nil;"

theorem line_endings_do_not_matter_mixed :
    let r : Reporter := { path := "a.lox" }
    sample.runFile (fun _ => some mixed.toUTF8) r = sample.run r plain ∧
      sample.runFile (fun _ => some plain.toUTF8) r =
        sample.runFile (fun _ => some mixed.toUTF8) r ∧
      Consists mixed.toList
        ["print \"a\";".toList, [], [], "print 1 - nil;".toList] ∧
      (sample.runFile (fun _ => some (plain.toUTF8 ++ ⟨#[0xe9]⟩)) r).outcome =
        .error (fileComplaint "a.lox" "decoded") ∧
      (sample.runFile (fun _ => some (plain.toUTF8 ++ ⟨#[0xe9]⟩)) r).out = "" := by
  intro r
  have hpath : '\x00' ∉ sample.path.toList := by decide
  have hsource : sourceOf mixed = plain := by decide +kernel
  have hplain : sourceOf plain = plain := by decide +kernel
  have hbad : ¬(plain.toUTF8 ++ ⟨#[0xe9]⟩).IsValidUTF8 := by decide +kernel
  obtain ⟨htext, -⟩ := line_endings_do_not_matter sample r (fun _ => some mixed.toUTF8) hpath
  obtain ⟨hrun, hothers, hlines, -⟩ := htext mixed rfl
  obtain ⟨-, hbytes⟩ :=
    line_endings_do_not_matter sample r (fun _ => some (plain.toUTF8 ++ ⟨#[0xe9]⟩)) hpath
  have hcomplaint := hbytes _ rfl fun file hfile => hbad (hfile ▸ file.isValidUTF8)
  refine ⟨hsource ▸ hrun, hothers _ plain rfl (hplain.trans hsource.symm),
    (hlines (by decide) _).mpr ?_, ?_, ?_⟩
  · rw [hsource]
    decide +kernel
  · rw [hcomplaint]
    rfl
  · rw [hcomplaint]

end Runner

end MiniLox
