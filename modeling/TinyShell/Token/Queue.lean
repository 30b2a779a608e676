import TinyShell.Token.Scan

/-!
# Token queue

One token of lookahead over a scanner. A token that was handed out can be put
back; the queue is exhausted once the end of the input has been handed out.
-/

set_option autoImplicit false

namespace TinyShell

structure TokenQueue where
  scanner : Scanner
  lookahead : Option Token
  exhausted : Bool
deriving Repr

namespace TokenQueue

def ofInput (input : Input) : TokenQueue := ⟨Scanner.ofInput input, none, false⟩

def peek (q : TokenQueue) : Except Failure Token × TokenQueue :=
  match q.lookahead with
  | some t => (.ok t, q)
  | none =>
    match q.scanner.next with
    | (.ok t, s) => (.ok t, { q with scanner := s, lookahead := some t })
    | (.error failure, s) => (.error failure, { q with scanner := s })

def handOut (q : TokenQueue) (t : Token) : TokenQueue :=
  { q with lookahead := none, exhausted := q.exhausted || t.kind == .endOfInput }

def next (q : TokenQueue) : Except Failure Token × TokenQueue :=
  match q.lookahead with
  | some t => (.ok t, q.handOut t)
  | none =>
    match q.scanner.next with
    | (.ok t, s) => (.ok t, { q with scanner := s }.handOut t)
    | (.error failure, s) => (.error failure, { q with scanner := s })

def putBack (q : TokenQueue) (t : Token) : TokenQueue :=
  { q with lookahead := some t, exhausted := q.exhausted && t.kind != .endOfInput }

def clear (q : TokenQueue) : TokenQueue :=
  match q.lookahead with
  | none => { q with scanner := q.scanner.clear }
  | some t =>
    if t.kind = .endOfInput then q.putBack t
    else { q with lookahead := none, scanner := q.scanner.clear }

def asked (q : TokenQueue) : Nat := q.scanner.cursor.asked

def received (q : TokenQueue) : Nat := q.scanner.cursor.lineNumber

def renew (q : TokenQueue) (lines : List Line) : TokenQueue :=
  { q with scanner := { q.scanner with cursor := q.scanner.cursor.renew lines } }

def size (q : TokenQueue) : Nat := q.scanner.size + if q.lookahead.isSome then 1 else 0

theorem size_renew_le (q : TokenQueue) (lines : List Line) : (q.renew lines).size ≤ q.size :=
  Nat.add_le_add_right (Nat.add_le_add_right (q.scanner.cursor.size_renew_le lines) _) _

theorem size_clear_le (q : TokenQueue) : q.clear.size ≤ q.size := by
  have hs := q.scanner.size_clear_le
  unfold clear
  split
  next h => simpa [size, h] using hs
  next t h =>
    split
    next => simp [size, putBack, h]
    next =>
      simp only [size, h, Option.isSome, if_true, Bool.false_eq_true, if_false]
      omega

theorem size_next_lt {q q' : TokenQueue} {t : Token} (h : q.next = (.ok t, q')) :
    q'.size < q.size := by
  unfold next at h
  split at h
  next ht =>
    obtain ⟨_, rfl⟩ := Prod.mk.inj h
    simp [size, handOut, ht]
  next ht =>
    split at h
    next hs =>
      obtain ⟨_, rfl⟩ := Prod.mk.inj h
      have := Scanner.size_next_lt hs
      simpa [size, handOut, ht] using this
    next => cases h

theorem lookahead_next {q q' : TokenQueue} {t : Token} (h : q.next = (.ok t, q')) :
    q'.lookahead = none := by
  unfold next at h
  split at h
  next => obtain ⟨_, rfl⟩ := Prod.mk.inj h; rfl
  next =>
    split at h
    next => obtain ⟨_, rfl⟩ := Prod.mk.inj h; rfl
    next => cases h

theorem size_putBack_le_of_next {q q' : TokenQueue} {t u : Token}
    (h : q.next = (.ok t, q')) : (q'.putBack u).size ≤ q.size := by
  have hl := lookahead_next h
  have hs := size_next_lt h
  rw [size, hl] at hs
  exact hs

theorem size_clear_next_lt {q q' : TokenQueue} {p : Position} {found : Option Char}
    {expected : Text} (h : q.next = (.error (.character p found expected), q')) :
    q'.clear.size < q.size := by
  unfold next at h
  split at h
  next => cases h
  next ht =>
    split at h
    next => cases h
    next hs =>
      obtain ⟨he, rfl⟩ := Prod.mk.inj h
      cases he
      have := Scanner.size_clear_next_lt hs
      simpa [clear, size, ht] using this

theorem size_next_le {q q' : TokenQueue} {r : Except Failure Token} (h : q.next = (r, q')) :
    q'.size ≤ q.size := by
  cases r with
  | ok t => exact Nat.le_of_lt (size_next_lt h)
  | error failure =>
    unfold next at h
    split at h
    next => cases h
    next ht =>
      split at h
      next => cases h
      next hs =>
        obtain ⟨_, rfl⟩ := Prod.mk.inj h
        have := Scanner.size_next_le hs
        simpa [size, ht] using this

end TokenQueue

end TinyShell
