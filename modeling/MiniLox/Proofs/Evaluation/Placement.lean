import MiniLox.Proofs.Evaluation.Blame
import MiniLox.Proofs.Grammar.Masks
import MiniLox.Proofs.Token.Places

/-!
What does not depend on where tokens stand. A mask takes the places away and
leaves everything else, so texts that have the same tokens in other places have
the same trees under the mask. Showing a tree does not look at places, and
neither does running a program: the run of a masked program is the run of the
program but for the places in its failure.
-/

namespace MiniLox

open Evaluation
open Grammar hiding Failure

/-! ### Tokens -/

/-- The text of an item says what the item is. -/
theorem Lexeme.Spells.eq {lexeme lexeme' : Lexeme} {u : List Char} (h : lexeme.Spells u)
    (h' : lexeme'.Spells u) : lexeme = lexeme' := by
  have hends (l : Lexeme) : ¬CarriesOn l u [] := by
    intro hcarries
    cases hcarries
  exact ((h.takes (hends lexeme)).eq (h'.takes (hends lexeme')) rfl).1

namespace Token

/-- The token standing nowhere. -/
def unplaced (t : Token) : Token := { t with line := 0, column := 0 }

/-- What a token shows wherever it stands: its kind and its text. -/
def face (t : Token) : Kind × String := (t.kind, t.lexeme)

/-- The token has a text that tells what it is, and nothing else is it: it closes a text, or it
is an item of one. -/
def IsWritten (t : Token) : Prop :=
  (t.kind = .endOfText ∧ t.lexeme = "" ∧ t.literal = none) ∨
    (Lexeme.token t.kind t.literal).Spells t.lexeme.toList

theorem isWritten_of_mem_scan {source : String} {tokens : List Token}
    (hscan : scan source = .ok tokens) {t : Token} (ht : t ∈ tokens) : t.IsWritten := by
  rcases mem_scan_cases hscan ht with ⟨p, rfl⟩ | ⟨before, hcut⟩
  · exact .inl ⟨rfl, rfl, rfl⟩
  · exact .inr hcut.spells

/-- The text of a token says what the token is. -/
theorem IsWritten.eq_of_lexeme_eq {t t' : Token} (h : t.IsWritten) (h' : t'.IsWritten)
    (hlexeme : t.lexeme = t'.lexeme) : t.kind = t'.kind ∧ t.literal = t'.literal := by
  rcases h with ⟨hkind, hempty, hliteral⟩ | hspells
  · rcases h' with ⟨hkind', -, hliteral'⟩ | hspells'
    · exact ⟨hkind.trans hkind'.symm, hliteral.trans hliteral'.symm⟩
    · exact absurd (congrArg String.toList (hlexeme.symm.trans hempty)) hspells'.ne_nil
  · rcases h' with ⟨-, hempty, -⟩ | hspells'
    · exact absurd (congrArg String.toList (hlexeme.trans hempty)) hspells.ne_nil
    · rw [← hlexeme] at hspells'
      exact Lexeme.token.inj (hspells.eq hspells')

theorem IsWritten.unplaced_eq {t t' : Token} (h : t.IsWritten) (h' : t'.IsWritten)
    (hlexeme : t.lexeme = t'.lexeme) : t.unplaced = t'.unplaced := by
  obtain ⟨hkind, hliteral⟩ := h.eq_of_lexeme_eq h' hlexeme
  simp only [unplaced, hkind, hlexeme, hliteral]

/-- Scanned tokens that show the same differ in nothing but their places. -/
theorem unplaced_eq_of_face_eq {source source' : String} {tokens tokens' : List Token}
    (hscan : scan source = .ok tokens) (hscan' : scan source' = .ok tokens') {t t' : Token}
    (ht : t ∈ tokens) (ht' : t' ∈ tokens') (hface : t.face = t'.face) :
    t.unplaced = t'.unplaced :=
  (isWritten_of_mem_scan hscan ht).unplaced_eq (isWritten_of_mem_scan hscan' ht')
    (congrArg Prod.snd hface)

theorem map_unplaced_congr {source source' : String} {tokens tokens' : List Token}
    (hscan : scan source = .ok tokens) (hscan' : scan source' = .ok tokens')
    (hfaces : tokens.map face = tokens'.map face) :
    tokens.map unplaced = tokens'.map unplaced := by
  have hlength : tokens.length = tokens'.length := by
    simpa using congrArg List.length hfaces
  refine List.ext_getElem (by simpa using hlength) fun i hi hi' => ?_
  rw [List.length_map] at hi hi'
  have hface : tokens[i].face = tokens'[i].face := by
    have := List.getElem_of_eq hfaces (by simpa using hi)
    simpa using this
  rw [List.getElem_map, List.getElem_map]
  exact unplaced_eq_of_face_eq hscan hscan' (List.getElem_mem hi) (List.getElem_mem hi') hface

end Token

/-- The mask that hides places alone. -/
def Grammar.Mask.places : Mask where
  token := Token.unplaced
  value := id
  base_kind _ := rfl
  denoted _ _ := rfl
  closing := rfl

/-! ### Trees -/

theorem Form.words_unplaced (form : Form) : (Mask.places.form form).words = form.words := by
  cases form <;> rfl

theorem Expr.display_unplaced (e : Expr) : (Mask.places.expr e).display = e.display := by
  induction e with
  | literal value => rfl
  | group inner ih => rw [Mask.expr, display, display, ih]
  | name token => rfl
  | unary operator right ih =>
      rw [Mask.expr, display, display, ih]
      rfl
  | binary left operator right ihleft ihright =>
      rw [Mask.expr, display, display, ihleft, ihright]
      rfl
  | misplaced form body ih => rw [Mask.expr, display, display, ih, Form.words_unplaced]

theorem Expr.height_unplaced (e : Expr) : (Mask.places.expr e).height = e.height := by
  induction e with
  | literal | name => rfl
  | group inner ih => rw [Mask.expr, height, height, ih]
  | unary operator right ih => rw [Mask.expr, height, height, ih]
  | binary left operator right ihleft ihright => rw [Mask.expr, height, height, ihleft, ihright]
  | misplaced form body ih => rw [Mask.expr, height, height, ih]

theorem Stmt.display_unplaced (s : Stmt) : (Mask.places.stmt s).display = s.display := by
  rw [Mask.stmt, display, display, Form.words_unplaced, Expr.display_unplaced]

theorem Stmt.height_unplaced (s : Stmt) : (Mask.places.stmt s).height = s.height :=
  congrArg (· + 1) s.expr.height_unplaced

theorem Grammar.SyntaxError.message_unplaced (e : SyntaxError) :
    (Mask.places.error e).message = e.message := rfl

/-! ### Evaluation -/

/-- The error at a token that stands nowhere. -/
def RuntimeError.unplaced (e : RuntimeError) : RuntimeError where
  token := e.token.unplaced
  fault := e.fault

namespace Evaluation

/-- The failure without the places in it. -/
def Failure.unplaced : Failure → Failure
  | error e => error e.unplaced
  | unknownUnary operator => unknownUnary operator.unplaced
  | unknownBinary operator => unknownBinary operator.unplaced
  | notExpression e => notExpression (Mask.places.expr e)
  | tooDeep => tooDeep

variable (operator : Token) (left right : Value)

theorem unary_unplaced :
    unary operator.unplaced right = (unary operator right).mapError Failure.unplaced := by
  obtain ⟨kind, lexeme, literal, line, column⟩ := operator
  cases kind with
  | minus => cases right <;> rfl
  | _ => rfl

theorem onNumbers_unplaced (apply : Float → Float → Value) :
    onNumbers operator.unplaced apply left right =
      (onNumbers operator apply left right).mapError Failure.unplaced := by
  unfold onNumbers
  split <;> rfl

theorem add_unplaced :
    add operator.unplaced left right = (add operator left right).mapError Failure.unplaced := by
  unfold add
  split <;> rfl

theorem binary_unplaced :
    binary operator.unplaced left right =
      (binary operator left right).mapError Failure.unplaced := by
  obtain ⟨kind, lexeme, literal, line, column⟩ := operator
  cases kind with
  | plus => exact add_unplaced _ left right
  | minus | star | slash | greater | greaterEqual | less | lessEqual =>
      exact onNumbers_unplaced _ left right _
  | _ => rfl

theorem meaning_unplaced (lookup : String → Option Value) (name : Token) :
    meaning lookup name.unplaced = (meaning lookup name).mapError Failure.unplaced := by
  have hlexeme : name.unplaced.lexeme = name.lexeme := rfl
  rw [meaning, meaning, hlexeme]
  cases lookup name.lexeme <;> rfl

theorem mapError_bind {α β : Type} (k : Failure → Failure) (x : Except Failure α)
    (f : α → Except Failure β) :
    (x >>= f).mapError k = x.mapError k >>= fun a => (f a).mapError k := by
  cases x <;> rfl

end Evaluation

theorem Expr.evaluate_unplaced (lookup : String → Option Value) (e : Expr) (levels : Nat) :
    (Mask.places.expr e).evaluate lookup levels =
      (e.evaluate lookup levels).mapError Failure.unplaced := by
  fun_induction evaluate lookup e levels with
  | case1 e =>
      rw [evaluate]
      rfl
  | case2 value levels => rfl
  | case3 inner levels ih => exact ih
  | case4 token levels => exact meaning_unplaced lookup token
  | case5 operator right levels ih =>
      show ((Mask.places.expr right).evaluate lookup levels >>= _) = _
      rw [ih, mapError_bind]
      congr 1
      funext r
      exact Evaluation.unary_unplaced operator r
  | case6 left operator right levels ihleft ihright =>
      show ((Mask.places.expr left).evaluate lookup levels >>= _) = _
      rw [ihleft, mapError_bind]
      congr 1
      funext l
      rw [ihright, mapError_bind]
      congr 1
      funext r
      exact Evaluation.binary_unplaced operator l r
  | case7 form body levels => rfl

/-! ### Runs -/

/-- The run without the places in its failure. -/
def Execution.unplaced (ran : Execution) : Execution where
  machine := ran.machine
  printed := ran.printed
  failure := ran.failure.map Failure.unplaced

namespace Machine

theorem perform_unplaced (m : Machine) (value : Value) (form : Form) :
    (Mask.places.form form).perform m value = form.perform m value := by
  cases form <;> rfl

/-- A run does not see where tokens stand, but it shows where it failed. -/
theorem run_unplaced (m : Machine) (ss : List Stmt) :
    m.run (ss.map Mask.places.stmt) = (m.run ss).unplaced := by
  induction ss generalizing m with
  | nil => rfl
  | cons s ss ih =>
      have hvalue : m.evaluate (Mask.places.stmt s).expr =
          (m.evaluate s.expr).mapError Failure.unplaced :=
        s.expr.evaluate_unplaced m.lookup m.levels
      rw [List.map_cons]
      cases h : m.evaluate s.expr with
      | error failure =>
          rw [h] at hvalue
          rw [run_cons_of_error h, run_cons_of_error hvalue]
          rfl
      | ok value =>
          have hperform : (Mask.places.stmt s).form.perform m value = s.form.perform m value :=
            perform_unplaced m value s.form
          rw [h] at hvalue
          rw [run_cons_of_ok h, run_cons_of_ok hvalue, hperform, ih]
          rfl

end Machine

end MiniLox
