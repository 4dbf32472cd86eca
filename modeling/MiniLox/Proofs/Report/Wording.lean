import MiniLox.Evaluation
import MiniLox.Proofs.Text.Filling

/-!
How the messages about a running program are worded. Each is made from a
template with one bare hole, which takes the text of the token that is to
blame; so no such template has a fault, whatever the token.
-/

namespace MiniLox

open Text

/-- The text of a message before and behind the token that is named in it. -/
def RuntimeFault.around : RuntimeFault → String × String
  | operand got => ("operand of '", "' must be a number, got " ++ got.name)
  | operands left right =>
    ("operands of '", "' must be numbers, got " ++ left.name ++ " and " ++ right.name)
  | addends left right =>
    ("operands of '", "' must be two numbers or two strings, got " ++ left.name ++ " and "
      ++ right.name)
  | undefined => ("undefined variable '", "'")

/-- The template of a message, with a hole for the token. -/
def RuntimeFault.template (fault : RuntimeFault) : String :=
  fault.around.1 ++ "\x7b\x7d" ++ fault.around.2

theorem ValueType.isPlain_name (type : ValueType) : IsPlain type.name.toList := by
  cases type <;> decide

theorem RuntimeFault.isPlain_around (fault : RuntimeFault) :
    IsPlain fault.around.1.toList ∧ IsPlain fault.around.2.toList := by
  cases fault with
  | operand got =>
      simp only [around, String.toList_append]
      exact ⟨by decide, .append (by decide) got.isPlain_name⟩
  | operands left right =>
      simp only [around, String.toList_append]
      exact ⟨by decide,
        .append (.append (.append (by decide) left.isPlain_name) (by decide)) right.isPlain_name⟩
  | addends left right =>
      simp only [around, String.toList_append]
      exact ⟨by decide,
        .append (.append (.append (by decide) left.isPlain_name) (by decide)) right.isPlain_name⟩
  | undefined => exact ⟨by decide, by decide⟩

namespace RuntimeError

variable (e : RuntimeError)

theorem message_eq_ofPieces :
    e.message = Message.ofPieces e.fault.around.1 [(e.token.lexeme, e.fault.around.2)] := by
  obtain ⟨token, fault⟩ := e
  cases fault <;> simp [message, Message.ofPieces, RuntimeFault.around, ToString.toString]

/-- The message of a failure is what its template makes with the text of the
token. -/
theorem exists_fill (color : Bool) :
    ∃ m, Template.fill color e.fault.template [e.token.lexeme] = .ok m ∧
      m.text = e.message.text ∧ m.render color = e.message.render color := by
  obtain ⟨hfirst, hrest⟩ := e.fault.isPlain_around
  have htemplate : Template.ofPieces e.fault.around.1 [(e.token.lexeme, e.fault.around.2)] =
      e.fault.template := by
    simp [Template.ofPieces, RuntimeFault.template, String.append_assoc]
  have hpieces : ∀ p ∈ [(e.token.lexeme, e.fault.around.2)], IsPlain p.2.toList := by
    simpa using hrest
  have h := Template.exists_fill_ofPieces color hfirst hpieces
  rw [htemplate, ← message_eq_ofPieces] at h
  exact h

end RuntimeError

end MiniLox
