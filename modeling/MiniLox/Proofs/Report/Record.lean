import MiniLox.Report.Reporter

/-!
What answering does to a reporter. The path, the severity and the source at
hand stay as they are, the record grows at its end, and of the flags the one
that fits is set. Nothing that is written depends on the record, so a reporter
whose reports follow earlier ones answers like one that has only its own.
-/

namespace MiniLox

open Text

namespace Reporter

/-- The reporter with more reports in its record, made before its own. -/
def following (r : Reporter) (earlier : List Report) : Reporter :=
  { r with reported := earlier ++ r.reported }

end Reporter

/-- The answer with more reports in the record, made before it. -/
def Response.following (answer : Response) (earlier : List Report) : Response :=
  { answer with reporter := answer.reporter.following earlier }

/-- What is written about a mistake where there are no colours. -/
def Report.notice (path : String) (m : Report) : String :=
  s!"{path}:{m.line}: error: {m.message}\n"

namespace Reporter

variable (r : Reporter) (earlier : List Report)

/-! ### Reports -/

theorem report_following (line : Int) (message : String) :
    (r.following earlier).report line message = (r.report line message).following earlier := by
  simp only [report, following, Response.following, place, List.append_assoc]

theorem reportAll_following (ms : List Report) :
    (r.following earlier).reportAll ms = (r.reportAll ms).following earlier := by
  induction ms generalizing r with
  | nil => rfl
  | cons m ms ih =>
      have hrest : ((r.report m.line m.message).following earlier).reporter.reportAll ms =
          ((r.report m.line m.message).reporter.reportAll ms).following earlier :=
        ih (r.report m.line m.message).reporter
      simp only [reportAll, report_following, hrest]
      rfl

theorem reportAll_reporter (ms : List Report) :
    (r.reportAll ms).reporter =
      { r with
        hadError := r.hadError || !ms.isEmpty
        reported := r.reported ++ ms } := by
  induction ms generalizing r with
  | nil => simp [reportAll]
  | cons m ms ih =>
      show ((r.report m.line m.message).reporter.reportAll ms).reporter = _
      rw [ih]
      simp [report]

theorem report_err (hcolor : r.color = false) (m : Report) :
    (r.report m.line m.message).err = m.notice r.path := by
  show Message.render r.color _ = _
  rw [hcolor, Message.render_false, ← String.toList_inj]
  simp [Message.text_cons, Report.notice, place, errorMark, ToString.toString]

theorem reportAll_err (hcolor : r.color = false) (ms : List Report) :
    (r.reportAll ms).err = String.join (ms.map (Report.notice r.path)) := by
  induction ms generalizing r with
  | nil => rfl
  | cons m ms ih =>
      have hrest : ((r.report m.line m.message).reporter.reportAll ms).err =
          String.join (ms.map (Report.notice r.path)) :=
        ih (r.report m.line m.message).reporter hcolor
      rw [reportAll, List.map_cons, String.join_cons, ← hrest, ← report_err r hcolor]

/-! ### Diagnostics -/

theorem throw_err (hcolor : r.color = false) (e : RuntimeError) :
    (r.throw e.diagnostic).err =
      s!"{r.path}:{e.token.line}: error: {e.message.text}\n" ++ (r.pointer e.token).text := by
  show Message.render r.color (r.written e.diagnostic) = _
  rw [hcolor, Message.render_false, ← String.toList_inj]
  simp [Message.text_cons, Message.text_append, written, RuntimeError.diagnostic, place, errorMark,
    ToString.toString]

end Reporter

end MiniLox
