import TinyShell.Statement.Progress

/-!
# Rounds of a call

The loops of a call once more, each giving up after a number of rounds. With
more rounds than there are characters to come, and a few for the end of the
input, no loop gives up, and the answer is that of the call.
-/

set_option autoImplicit false

namespace TinyShell

namespace Scanner

def scanWithin : Nat → Position → Text → Scan → Cursor → Option (Except Failure Token × Scanner)
  | 0, _, _, _, _ => none
  | n+1, start, text, state, cursor =>
    match cursor.peek with
    | (.error failure, cursor) => some (.error failure, ⟨cursor, false⟩)
    | (.ok none, cursor) => some (finish (beginning start state cursor) text state cursor)
    | (.ok (some c), cursor) =>
      let start := beginning start state cursor
      match state.onChar c with
      | .skip next => scanWithin n start text next cursor.advance
      | .keep next => scanWithin n start (text ++ [c]) next cursor.advance
      | .stop (some kind) => some (.ok ⟨kind, text, start⟩, ⟨cursor, false⟩)
      | .take (some kind) => some (.ok ⟨kind, text ++ [c], start⟩, ⟨cursor.advance, false⟩)
      | .close (some kind) => some (.ok ⟨kind, text, start⟩, ⟨cursor.advance, false⟩)
      | .refuse expected =>
        some (.error (.character cursor.position (some c) expected), ⟨cursor, false⟩)
      | .stop none => some (.error (.argument (.other unrecognized)), ⟨cursor, false⟩)
      | .take none | .close none =>
        some (.error (.argument (.other unrecognized)), ⟨cursor.advance, false⟩)

theorem scanWithin_eq {n : Nat} {start : Position} {text : Text} {state : Scan} {c : Cursor}
    (h : c.size < n) : scanWithin n start text state c = some (scan start text state c) := by
  induction n generalizing start text state c with
  | zero => exact absurd h (Nat.not_lt_zero _)
  | succ n ih =>
    rw [scanWithin, scan]
    cases hp : c.peek with
    | mk shown c' =>
      cases shown with
      | error failure => rfl
      | ok found =>
        cases found with
        | none => rfl
        | some x =>
          have hlt := Cursor.size_advance_lt_of_peek hp
          have hn : c'.advance.size < n := by omega
          simp only
          cases state.onChar x with
          | skip next => exact ih hn
          | keep next => exact ih hn
          | stop kind | take kind | close kind => cases kind <;> rfl
          | refuse => rfl

def nextWithin (n : Nat) (s : Scanner) : Option (Except Failure Token × Scanner) :=
  if s.endPending then
    some (.ok ⟨.endOfInput, [], s.cursor.position⟩, { s with endPending := false })
  else scanWithin n s.cursor.position [] .gap s.cursor

theorem nextWithin_eq {n : Nat} {s : Scanner} (h : s.size < n) : s.nextWithin n = some s.next := by
  have hcursor : s.cursor.size < n := Nat.lt_of_le_of_lt (Nat.le_add_right _ _) h
  rw [nextWithin, next, scanWithin_eq hcursor]
  split <;> rfl

end Scanner

namespace TokenQueue

def nextWithin (n : Nat) (q : TokenQueue) : Option (Except Failure Token × TokenQueue) :=
  match q.lookahead with
  | some t => some (.ok t, q.handOut t)
  | none => (q.scanner.nextWithin n).map fun
    | (.ok t, s) => (.ok t, { q with scanner := s }.handOut t)
    | (.error failure, s) => (.error failure, { q with scanner := s })

theorem nextWithin_eq {n : Nat} {q : TokenQueue} (h : q.size < n) :
    q.nextWithin n = some q.next := by
  have hscanner : q.scanner.size < n := Nat.lt_of_le_of_lt (Nat.le_add_right _ _) h
  rw [nextWithin, TokenQueue.next, Scanner.nextWithin_eq hscanner]
  cases q.lookahead with
  | some t => rfl
  | none => rfl

end TokenQueue

namespace Reader

def runWithin (limit : Nat) : Nat → Reader → TokenQueue →
    Option (Except Failure (Option Statement) × TokenQueue)
  | 0, _, _ => none
  | n+1, reader, q =>
    match q.nextWithin limit with
    | none => none
    | some (.error failure, q) => some (.error failure, q)
    | some (.ok t, q) =>
      match reader.feed t with
      | .shift reader => runWithin limit n reader q
      | .accept statement => some (.ok statement, q)
      | .reject expected taken =>
        some (.error (.grammar t.position t.kind expected), if taken then q else q.putBack t)

theorem runWithin_eq {limit n : Nat} {reader : Reader} {q : TokenQueue} (hl : q.size < limit)
    (h : q.size < n) : runWithin limit n reader q = some (reader.run q) := by
  induction n generalizing reader q with
  | zero => exact absurd h (Nat.not_lt_zero _)
  | succ n ih =>
    rw [runWithin, TokenQueue.nextWithin_eq hl, run]
    cases hn : q.next with
    | mk r q' =>
      cases r with
      | error failure => rfl
      | ok t =>
        have hlt := TokenQueue.size_next_lt hn
        simp only
        cases reader.feed t with
        | shift next => exact ih (by omega) (by omega)
        | accept | reject => rfl

end Reader

namespace TokenQueue

def readWithin (n : Nat) (q : TokenQueue) :
    Option (Except Failure (Option Statement) × TokenQueue) :=
  if q.exhausted then some (.ok none, q) else Reader.runWithin n n .idle q

theorem readWithin_eq {n : Nat} {q : TokenQueue} (h : q.size < n) :
    q.readWithin n = some q.read := by
  rw [readWithin, read, Reader.runWithin_eq h h]
  split <;> rfl

end TokenQueue

end TinyShell
