import TinyShell.Token.Scan

/-!
# Tokens laid out in a text

A text that can be cut into tokens is a row of pieces. A piece is a token with
the blanks before it, and with the comment if the token ends a line or the
input. A position is told from the text before it alone.
-/

set_option autoImplicit false

namespace TinyShell

def Text.isSpace (c : Char) : Bool := Text.isBlank c && c != '\n'

namespace Position

/-- The position of what comes next after the text: the lines that have begun,
and the characters since then, one more of both. -/
def after (text : Text) : Position :=
  ⟨text.count '\n' + 1, (text.reverse.takeWhile (· != '\n')).length + 1⟩

def Precedes (p q : Position) : Prop :=
  p.line < q.line ∨ p.line = q.line ∧ p.column < q.column

variable (text : Text)

theorem after_newline : after (text ++ ['\n']) = ⟨(after text).line + 1, 1⟩ := by
  simp [after]

theorem after_char {c : Char} (h : c ≠ '\n') :
    after (text ++ [c]) = ⟨(after text).line, (after text).column + 1⟩ := by
  simp [after, h]

theorem Precedes.trans {p q r : Position} (h : p.Precedes q) (h' : q.Precedes r) :
    p.Precedes r := by
  unfold Precedes at *
  omega

theorem precedes_concat (c : Char) : (after text).Precedes (after (text ++ [c])) := by
  by_cases hc : c = '\n'
  · subst hc
    rw [after_newline]
    exact .inl (Nat.lt_succ_self _)
  · rw [after_char text hc]
    exact .inr ⟨rfl, Nat.lt_succ_self _⟩

theorem precedes_append {more : Text} (h : more ≠ []) :
    (after text).Precedes (after (text ++ more)) := by
  induction more generalizing text with
  | nil => exact absurd rfl h
  | cons c more ih =>
    by_cases hm : more = []
    · subst hm
      exact precedes_concat text c
    · have hrest := ih (text ++ [c]) hm
      rw [List.append_assoc] at hrest
      exact (precedes_concat text c).trans hrest

end Position

def Token.source (t : Token) : Text :=
  if t.kind = .string then '"' :: t.text ++ ['"'] else t.text

structure Piece where
  blanks : Text
  comment : Option Text
  token : Token

namespace Piece

def remark : Option Text → Text
  | none => []
  | some body => '#' :: body

def gap (p : Piece) : Text := p.blanks ++ remark p.comment

def text (p : Piece) : Text := p.gap ++ p.token.source

structure Laid (p : Piece) : Prop where
  blanks : ∀ c ∈ p.blanks, Text.isSpace c = true
  comment : ∀ body, p.comment = some body →
    '\n' ∉ body ∧ (p.token.kind = .newline ∨ p.token.kind = .endOfInput)

end Piece

namespace Scanner

def answers : Nat → Scanner → List (Except Failure Token)
  | 0, _ => []
  | n+1, s => s.next.1 :: answers n s.next.2

end Scanner

end TinyShell
