import TinyShell.Proofs.Lines.Relocation
import TinyShell.Statement.Progress

/-!
# Reading in the middle of a longer input

A cursor is extended by lines before those it has received, which only moves
its positions down, and by lines after those it waits for, which it does not
notice until it has come to its end. Each layer of reading then gives the same
answers, with their positions moved down.
-/

set_option autoImplicit false

namespace TinyShell

namespace Cursor

def extend (n : Nat) (more : List Line) (c : Cursor) : Cursor :=
  { c with upcoming := c.upcoming ++ more, lineNumber := c.lineNumber + n,
           asked := c.asked + n }

def Begun (n : Nat) (c : Cursor) : Prop := n = 0 ∨ 0 < c.lineNumber

variable {n : Nat} {more : List Line} {c c' : Cursor}

theorem position_extend (h : c.Begun n) : (c.extend n more).position = c.position.down n := by
  have hmax : max (c.lineNumber + n) 1 = max c.lineNumber 1 + n := by
    rcases h with h | h <;> omega
  simp only [position, extend, Position.down, hmax]

theorem advance_extend : (c.extend n more).advance = c.advance.extend n more := by
  unfold advance
  cases hr : c.rest <;> simp [extend, hr]

theorem begun_advance (h : c.Begun n) : c.advance.Begun n := by
  unfold advance
  split <;> exact h

theorem begun_peek (h : c.Begun n) {r : Except Failure (Option Char)}
    (hp : c.peek = (r, c')) : c'.Begun n := by
  unfold peek at hp
  split at hp <;> obtain ⟨_, rfl⟩ := Prod.mk.inj hp
  case h_4 => exact h.imp_right fun _ => Nat.succ_pos _
  all_goals exact h

theorem peek_extend_some {x : Char} (h : c.peek = (.ok (some x), c')) :
    (c.extend n more).peek = (.ok (some x), c'.extend n more) := by
  unfold peek at h
  split at h
  next => cases h
  next hp hr hx =>
    cases h
    unfold peek
    split <;> simp_all [extend]
  next => cases h
  next hp hr hu =>
    cases h
    simp [peek, extend, hp, hr, hu, Nat.add_right_comm]
  next => cases h
  next => cases h

theorem peek_extend_nil {r : Except Failure (Option Char)} (h : c.peek = (r, c')) :
    (c.extend n []).peek = (r, c'.extend n []) := by
  have hnil (lines : List Line) : lines ++ [] = lines := List.append_nil lines
  unfold peek at h ⊢
  split at h <;> simp_all [extend] <;> grind

theorem phase_of_peek_error {failure : Failure} (h : c.peek = (.error failure, c')) :
    c'.phase ≠ .reading := by
  unfold peek at h
  split at h
  next hp =>
    cases h
    simp [hp]
  next => cases h
  next => cases h
  next => cases h
  next => cases h
  next =>
    cases h
    simp

theorem phase_of_peek {r : Except Failure (Option Char)} (h : c.peek = (r, c'))
    (hp : c'.phase = .reading) : c.phase = .reading := by
  unfold peek at h
  split at h <;> obtain ⟨_, rfl⟩ := Prod.mk.inj h <;> simp_all

theorem phase_advance : c.advance.phase = c.phase := by
  unfold advance
  split <;> rfl

end Cursor

theorem Failure.relocate_of_endsInput (f : Position → Position) {failure : Failure}
    (h : failure.endsInput = true) : failure.relocate f = failure := by
  cases failure <;> first | rfl | cases h

namespace Scanner

def extend (n : Nat) (more : List Line) (s : Scanner) : Scanner :=
  { s with cursor := s.cursor.extend n more }

def extended (n : Nat) (more : List Line) (x : Except Failure Token × Scanner) :
    Except Failure Token × Scanner :=
  (relocated (Position.down n) (Token.relocate (Position.down n)) x.1, x.2.extend n more)

variable {n : Nat} {more : List Line}

theorem finish_extend {start : Position} {text : Text} {state : Scan} {c : Cursor}
    (h : c.Begun n) : finish (start.down n) text state (c.extend n more) =
      extended n more (finish start text state c) := by
  unfold finish
  cases state.onEnd with
  | error expected =>
    simp only [Cursor.position_extend h]
    rfl
  | ok kind => cases kind <;> rfl

theorem begun_finish {start : Position} {text : Text} {state : Scan} {c : Cursor}
    (h : c.Begun n) : (finish start text state c).2.cursor.Begun n := by
  unfold finish
  split <;> exact h

theorem beginning_extend {start : Position} {state : Scan} {c : Cursor} (h : c.Begun n) :
    beginning (start.down n) state (c.extend n more) = (beginning start state c).down n := by
  unfold beginning
  by_cases hs : state = .gap
  · rw [if_pos hs, if_pos hs, Cursor.position_extend h]
  · rw [if_neg hs, if_neg hs]

/-- Scanning does not come to the lines that were added, unless it came to the
end of the input before. -/
theorem scan_extend {start : Position} {text : Text} {state : Scan} {c : Cursor}
    (h : c.Begun n) (hm : more = [] ∨ (scan start text state c).2.cursor.phase = .reading) :
    scan (start.down n) text state (c.extend n more) =
        extended n more (scan start text state c) ∧
      (scan start text state c).2.cursor.Begun n := by
  fun_induction scan start text state c with
  | case1 start text state c failure c' hp =>
    obtain rfl : more = [] := hm.resolve_right (Cursor.phase_of_peek_error hp)
    refine ⟨?_, Cursor.begun_peek h hp⟩
    rw [scan, Cursor.peek_extend_nil hp, extended, relocated,
      Failure.relocate_of_endsInput _ (Cursor.endsInput_of_peek hp)]
    rfl
  | case2 start text state c c' hp =>
    have hb := Cursor.begun_peek h hp
    have hclosed := (Cursor.phase_of_peek_none hp).1
    have hm' : more = [] := by
      rcases hm with hm | hm
      · exact hm
      · unfold finish at hm
        split at hm <;> simp_all
    subst hm'
    refine ⟨?_, begun_finish hb⟩
    rw [scan, Cursor.peek_extend_nil hp]
    simp only [beginning_extend hb, finish_extend hb]
  | case3 start text state c x c' hp start' next hk ih
  | case4 start text state c x c' hp start' next hk ih =>
    have hb := Cursor.begun_peek h hp
    obtain ⟨hscan, hbegun⟩ := ih (Cursor.begun_advance hb) hm
    refine ⟨?_, hbegun⟩
    rw [scan, Cursor.peek_extend_some hp]
    simp only [beginning_extend hb, hk, Cursor.advance_extend]
    exact hscan
  | case5 start text state c x c' hp start' kind hk =>
    have hb := Cursor.begun_peek h hp
    refine ⟨?_, hb⟩
    rw [scan, Cursor.peek_extend_some hp]
    simp only [beginning_extend hb, hk]
    rfl
  | case6 start text state c x c' hp start' kind hk
  | case7 start text state c x c' hp start' kind hk =>
    have hb := Cursor.begun_peek h hp
    refine ⟨?_, Cursor.begun_advance hb⟩
    rw [scan, Cursor.peek_extend_some hp]
    simp only [beginning_extend hb, hk, Cursor.advance_extend]
    rfl
  | case8 start text state c x c' hp expected hk =>
    have hb := Cursor.begun_peek h hp
    refine ⟨?_, hb⟩
    rw [scan, Cursor.peek_extend_some hp]
    simp only [hk, Cursor.position_extend hb]
    rfl
  | case9 _ _ _ _ _ _ _ hk | case10 _ _ _ _ _ _ _ hk | case11 _ _ _ _ _ _ _ hk =>
    simp [Scan.onChar_ne_none] at hk

theorem phase_of_scan {start : Position} {text : Text} {state : Scan} {c : Cursor}
    (h : (scan start text state c).2.cursor.phase = .reading) : c.phase = .reading := by
  fun_induction scan start text state c with
  | case1 _ _ _ _ _ _ hp => exact Cursor.phase_of_peek hp h
  | case2 _ _ _ _ _ hp =>
    unfold finish at h
    split at h <;> exact Cursor.phase_of_peek hp h
  | case3 _ _ _ _ _ _ hp _ _ _ ih | case4 _ _ _ _ _ _ hp _ _ _ ih =>
    exact Cursor.phase_of_peek hp (Cursor.phase_advance ▸ ih h)
  | case5 _ _ _ _ _ _ hp | case8 _ _ _ _ _ _ hp => exact Cursor.phase_of_peek hp h
  | case6 _ _ _ _ _ _ hp | case7 _ _ _ _ _ _ hp =>
    exact Cursor.phase_of_peek hp (Cursor.phase_advance ▸ h)
  | case9 _ _ _ _ _ _ _ hk | case10 _ _ _ _ _ _ _ hk | case11 _ _ _ _ _ _ _ hk =>
    simp [Scan.onChar_ne_none] at hk

theorem phase_of_next {s : Scanner} (h : s.next.2.cursor.phase = .reading) :
    s.cursor.phase = .reading := by
  unfold next at h
  split at h
  next => exact h
  next => exact phase_of_scan h

theorem next_extend {s : Scanner} (h : s.cursor.Begun n)
    (hm : more = [] ∨ s.next.2.cursor.phase = .reading) :
    (s.extend n more).next = extended n more s.next ∧ s.next.2.cursor.Begun n := by
  unfold next at hm ⊢
  by_cases hp : s.endPending = true
  · rw [if_pos hp, if_pos (show (s.extend n more).endPending = true from hp)]
    refine ⟨?_, h⟩
    simp only [extend, Cursor.position_extend h]
    rfl
  · rw [if_neg hp, if_neg (show ¬ (s.extend n more).endPending = true from hp)]
    rw [if_neg hp] at hm
    rw [show (s.extend n more).cursor = s.cursor.extend n more from rfl,
      Cursor.position_extend h]
    exact scan_extend h hm

end Scanner

namespace TokenQueue

def extend (n : Nat) (more : List Line) (q : TokenQueue) : TokenQueue :=
  { q with scanner := q.scanner.extend n more,
           lookahead := q.lookahead.map (Token.relocate (Position.down n)) }

variable {n : Nat} {more : List Line} {q q' : TokenQueue}

theorem clear_extend : (q.extend n more).clear = q.clear.extend n more := by
  obtain ⟨scanner, lookahead, exhausted⟩ := q
  cases lookahead with
  | none => rfl
  | some t =>
    by_cases ht : t.kind = .endOfInput <;>
      simp [clear, extend, putBack, ht, Scanner.clear, Scanner.extend, Cursor.clear, Cursor.extend]

theorem next_extend (h : q.scanner.cursor.Begun n) {r : Except Failure Token}
    (hn : q.next = (r, q')) (hm : more = [] ∨ q'.scanner.cursor.phase = .reading) :
    (q.extend n more).next = (relocated (Position.down n) (Token.relocate (Position.down n)) r,
        q'.extend n more) ∧ q'.scanner.cursor.Begun n := by
  obtain ⟨scanner, lookahead, exhausted⟩ := q
  cases lookahead with
  | some t =>
    cases hn
    exact ⟨rfl, h⟩
  | none =>
    have hs := @Scanner.next_extend n more scanner h
    simp only [next] at hn
    cases hk : scanner.next with
    | mk answer s =>
      simp only [hk] at hn hs
      cases answer <;> (
        cases hn
        obtain ⟨heq, hb⟩ := hs hm
        exact ⟨by simp only [next, extend, Option.map_none, heq]; rfl, hb⟩)

theorem phase_of_next {r : Except Failure Token} (h : q.next = (r, q'))
    (hp : q'.scanner.cursor.phase = .reading) : q.scanner.cursor.phase = .reading := by
  have hs : q.scanner.next.2.cursor.phase = .reading → q.scanner.cursor.phase = .reading :=
    Scanner.phase_of_next
  unfold next at h
  split at h
  next =>
    cases h
    exact hp
  next =>
    split at h <;> (
      next hk =>
        cases h
        rw [hk] at hs
        exact hs hp)

end TokenQueue

namespace Reader

variable {n : Nat} {more : List Line} {reader : Reader} {q q' : TokenQueue}
  {r : Except Failure (Option Statement)}

abbrev movedDown (n : Nat) : Except Failure (Option Statement) →
    Except Failure (Option Statement) :=
  relocated (Position.down n) (Option.map (Statement.relocate (Position.down n)))

theorem phase_of_run (h : reader.run q = (r, q')) (hp : q'.scanner.cursor.phase = .reading) :
    q.scanner.cursor.phase = .reading := by
  fun_induction run reader q with
  | case1 reader q failure q₁ hn =>
    cases h
    exact TokenQueue.phase_of_next hn hp
  | case2 reader q t q₁ hn next hk ih => exact TokenQueue.phase_of_next hn (ih h)
  | case3 reader q t q₁ hn statement hk =>
    cases h
    exact TokenQueue.phase_of_next hn hp
  | case4 reader q t q₁ hn expected taken hk =>
    cases h
    cases taken <;> exact TokenQueue.phase_of_next hn hp

/-- Unless it comes to the end of the input, a run does not notice in which
input it takes place. -/
theorem run_extend (hb : q.scanner.cursor.Begun n) (h : reader.run q = (r, q'))
    (hm : more = [] ∨ q'.scanner.cursor.phase = .reading) :
    (reader.relocate (Position.down n)).run (q.extend n more) =
        (movedDown n r, q'.extend n more) ∧ q'.scanner.cursor.Begun n := by
  fun_induction run reader q with
  | case1 reader q failure q₁ hn =>
    cases h
    obtain ⟨hnext, hb'⟩ := TokenQueue.next_extend hb hn hm
    refine ⟨?_, hb'⟩
    rw [run, hnext]
    rfl
  | case2 reader q t q₁ hn next hk ih =>
    have hm₁ : more = [] ∨ q₁.scanner.cursor.phase = .reading := hm.imp_right (phase_of_run h)
    obtain ⟨hnext, hb'⟩ := TokenQueue.next_extend hb hn hm₁
    obtain ⟨hrun, hbegun⟩ := ih hb' h
    refine ⟨?_, hbegun⟩
    rw [run, hnext]
    simp only [relocated, feed_relocate, hk, Verdict.relocate]
    exact hrun
  | case3 reader q t q₁ hn statement hk =>
    cases h
    obtain ⟨hnext, hb'⟩ := TokenQueue.next_extend hb hn hm
    refine ⟨?_, hb'⟩
    rw [run, hnext]
    simp only [relocated, feed_relocate, hk, Verdict.relocate, movedDown]
  | case4 reader q t q₁ hn expected taken hk =>
    cases h
    have hm₁ : more = [] ∨ q₁.scanner.cursor.phase = .reading := by
      cases taken <;> exact hm
    obtain ⟨hnext, hb'⟩ := TokenQueue.next_extend hb hn hm₁
    constructor
    · rw [run, hnext]
      simp only [relocated, feed_relocate, hk, Verdict.relocate, movedDown]
      cases taken <;> rfl
    · cases taken <;> exact hb'

end Reader

theorem TokenQueue.read_extend {n : Nat} {more : List Line} {q : TokenQueue}
    (hb : q.scanner.cursor.Begun n)
    (hm : more = [] ∨ q.read.2.scanner.cursor.phase = .reading) :
    (q.extend n more).read = (Reader.movedDown n q.read.1, q.read.2.extend n more) ∧
      q.read.2.scanner.cursor.Begun n := by
  unfold TokenQueue.read at hm ⊢
  by_cases he : q.exhausted = true
  · rw [if_pos he, if_pos (show (q.extend n more).exhausted = true from he)]
    exact ⟨rfl, hb⟩
  · rw [if_neg he] at hm
    rw [if_neg he, if_neg (show ¬ (q.extend n more).exhausted = true from he)]
    exact Reader.run_extend hb rfl hm

end TinyShell
