import TinyShell.Failure
import TinyShell.Input.Line

/-!
# Character cursor

The cursor holds one line at a time and asks for the next one only when a
character of it is wanted. The end of the input is seen once; looking again
after that is a failure, so no reader can spin on a finished input.
-/

set_option autoImplicit false

namespace TinyShell

inductive Phase
  | reading
  | ended
  | closed
deriving DecidableEq, Repr

def Phase.weight : Phase → Nat
  | reading => 2
  | ended => 1
  | closed => 0

structure Cursor where
  upcoming : List Line
  fault : Option Text
  /-- The part of the current line that has not been passed. -/
  rest : Text
  /-- How many characters of the current line have been passed. -/
  column : Nat
  /-- How many lines have been received. -/
  lineNumber : Nat
  /-- How many lines have been asked for. -/
  asked : Nat
  phase : Phase
deriving Repr

namespace Cursor

def ofInput (input : Input) : Cursor :=
  ⟨input.lines, input.fault, [], 0, 0, 0, .reading⟩

def peek (c : Cursor) : Except Failure (Option Char) × Cursor :=
  match c.phase, c.rest, c.upcoming, c.fault with
  | .closed, _, _, _ => (.error .inputClosed, c)
  | _, x :: _, _, _ => (.ok (some x), c)
  | .ended, [], _, _ => (.ok none, { c with phase := .closed })
  | .reading, [], line :: lines, _ =>
    (.ok (some line.first),
      { c with upcoming := lines, rest := line.text, column := 0,
               lineNumber := c.lineNumber + 1, asked := c.asked + 1 })
  | .reading, [], [], none =>
    (.ok none, { c with column := 0, asked := c.asked + 1, phase := .closed })
  | .reading, [], [], some reason =>
    (.error (.inputFault reason), { c with column := 0, asked := c.asked + 1, phase := .ended })

def advance (c : Cursor) : Cursor :=
  match c.rest with
  | [] => c
  | _ :: rest => { c with rest := rest, column := c.column + 1 }

def clear (c : Cursor) : Cursor := { c with rest := [], column := 0 }

def position (c : Cursor) : Position := ⟨max c.lineNumber 1, c.column + 1⟩

def isClosed (c : Cursor) : Bool := c.phase == .closed

def outstanding : List Line → Nat
  | [] => 0
  | line :: lines => line.text.length + outstanding lines

def within (room : Nat) : List Line → List Line
  | [] => []
  | line :: lines =>
    if line.text.length ≤ room then line :: within (room - line.text.length) lines else []

theorem outstanding_within_le (room : Nat) (lines : List Line) :
    outstanding (within room lines) ≤ room := by
  fun_induction within room lines with
  | case1 => exact Nat.zero_le _
  | case2 room line lines h ih => rw [outstanding]; omega
  | case3 => exact Nat.zero_le _

def renew (c : Cursor) (lines : List Line) : Cursor :=
  { c with upcoming := within (outstanding c.upcoming) lines }

def size (c : Cursor) : Nat := c.rest.length + outstanding c.upcoming + c.phase.weight

theorem size_peek_le {c c' : Cursor} {r : Except Failure (Option Char)}
    (h : c.peek = (r, c')) : c'.size ≤ c.size := by
  unfold peek at h
  split at h <;> obtain ⟨rfl, rfl⟩ := Prod.mk.inj h <;>
    simp_all [size, outstanding, Line.text, Phase.weight]

theorem rest_of_peek_some {c c' : Cursor} {x : Char}
    (h : c.peek = (.ok (some x), c')) : ∃ rest, c'.rest = x :: rest := by
  unfold peek at h
  split at h
  next => cases h
  next hr _ =>
    cases h
    exact ⟨_, hr⟩
  next => cases h
  next =>
    cases h
    exact ⟨_, rfl⟩
  next => cases h
  next => cases h

theorem peek_ne_character (c c' : Cursor) (p : Position) (found : Option Char)
    (expected : Text) : c.peek ≠ (.error (.character p found expected), c') := by
  unfold peek
  split <;> simp

theorem size_advance_lt {c : Cursor} {x : Char} {rest : Text} (h : c.rest = x :: rest) :
    c.advance.size < c.size := by
  simp [advance, size, h]

theorem size_clear_lt {c : Cursor} {x : Char} {rest : Text} (h : c.rest = x :: rest) :
    c.clear.size < c.size := by
  simp [clear, size, h]

theorem size_clear_le (c : Cursor) : c.clear.size ≤ c.size := by
  simp [clear, size]

theorem size_renew_le (c : Cursor) (lines : List Line) : (c.renew lines).size ≤ c.size := by
  have := outstanding_within_le (outstanding c.upcoming) lines
  simp only [renew, size]
  omega

theorem size_advance_lt_of_peek {c c' : Cursor} {x : Char}
    (h : c.peek = (.ok (some x), c')) : c'.advance.size < c.size := by
  obtain ⟨rest, hr⟩ := rest_of_peek_some h
  exact Nat.lt_of_lt_of_le (size_advance_lt hr) (size_peek_le h)

theorem phase_of_peek_none {c c' : Cursor} (h : c.peek = (.ok none, c')) :
    c'.phase = .closed ∧ c'.size < c.size := by
  unfold peek at h
  split at h <;> simp_all <;> (obtain rfl := h; simp_all [size, Phase.weight])

end Cursor

end TinyShell
