import TinyShell.Proofs.Descent.Productions
import TinyShell.Proofs.Lines.Ending

/-!
# Rules for programs over a queue

While a phrase is being read the stack machine stands where the productions
are: what it will come to from there is what it came to from the start. A call
of the queue moves both of them on, and where it fails the machine fails with
the same queue. There is a rule for each kind of call.
-/

set_option autoImplicit false

namespace TinyShell

namespace TokenQueue

variable {q q' : TokenQueue} {t : Token} {failure : Failure}

theorem peek_held (hl : q.lookahead = some t) : q.peek = (.ok t, q) := by
  simp only [peek, hl]

theorem next_of_peek (h : q.peek = (.ok t, q')) : q'.lookahead = some t ∧
    q'.exhausted = q.exhausted ∧ q'.size ≤ q.size ∧ q.next = q'.next := by
  cases hl : q.lookahead with
  | some u =>
    rw [peek_held hl] at h
    cases h
    exact ⟨hl, rfl, Nat.le_refl _, rfl⟩
  | none =>
    simp only [peek, hl] at h
    cases hs : q.scanner.next with
    | mk answer s =>
      rw [hs] at h
      cases answer with
      | error failure => cases h
      | ok u =>
        cases h
        refine ⟨rfl, rfl, ?_, ?_⟩
        · have hlt := Scanner.size_next_lt hs
          simp only [size, hl, Option.isSome, if_true, Bool.false_eq_true, if_false]
          omega
        · simp only [next, hl, hs]
          rfl

theorem next_of_peek_error (h : q.peek = (.error failure, q')) :
    q.next = (.error failure, q') := by
  cases hl : q.lookahead with
  | some u =>
    rw [peek_held hl] at h
    cases h
  | none =>
    simp only [peek, hl] at h
    simp only [next, hl]
    split at h
    next => cases h
    next => exact h

theorem exhausted_next (h : q.next = (.ok t, q')) :
    q'.exhausted = (q.exhausted || t.kind == .endOfInput) := by
  cases hl : q.lookahead with
  | some u =>
    rw [next_held hl] at h
    cases h
    rfl
  | none =>
    simp only [next, hl] at h
    split at h
    next =>
      cases h
      rfl
    next => cases h

/-- A token that was held, and is put back, leaves the queue as it was. -/
theorem putBack_handOut (he : q.exhausted = false) (hl : q.lookahead = some t) :
    (q.handOut t).putBack t = q := by
  cases q
  cases he
  cases hl
  simp [handOut, putBack]

/-- A token that was handed out, and is put back, is handed out again. -/
theorem next_putBack (h : q.next = (.ok t, q')) : (q'.putBack t).next = (.ok t, q') := by
  have he : (q'.exhausted && t.kind != .endOfInput || t.kind == .endOfInput) = q'.exhausted := by
    rw [exhausted_next h, bne]
    cases q.exhausted <;> cases t.kind == .endOfInput <;> rfl
  have heq : (q'.putBack t).handOut t = q' := by
    simp only [handOut, putBack, he, ← lookahead_next h]
  rw [next_held (t := t) rfl, heq]

end TokenQueue

namespace Reader

variable {q q' : TokenQueue} {failure : Failure}

theorem run_error (h : q.next = (.error failure, q')) (reader : Reader) :
    reader.run q = (.error failure, q') := by
  rw [run]
  split
  next hn =>
    rw [h] at hn
    cases hn
    rfl
  next hn =>
    rw [h] at hn
    cases hn

theorem run_eq_of_next (h : q.next = q'.next) (reader : Reader) :
    reader.run q = reader.run q' := by
  cases hn : q.next with
  | mk answer q₁ =>
    cases answer with
    | error failure => rw [run_error hn, run_error (h ▸ hn)]
    | ok t => rw [Grammar.run_next hn, Grammar.run_next (h ▸ hn)]

end Reader

namespace Descent

open Reader Grammar

structure Stands (answer : Except Failure (Option Statement) × TokenQueue) (n : Nat)
    (reader : Reader) (q : TokenQueue) : Prop where
  run : reader.run q = answer
  unexhausted : q.exhausted = false
  size : q.size ≤ n

def Fed (answer : Except Failure (Option Statement) × TokenQueue) (n : Nat) (t : Token)
    (q : TokenQueue) : Verdict → Prop
  | .shift reader => ∃ m < n, Stands answer m reader q
  | .accept statement => answer = (.ok statement, q)
  | .reject expected taken =>
    answer = (.error (.grammar t.position t.kind expected), if taken then q else q.putBack t)

def Meets {α : Type} (answer : Except Failure (Option Statement) × TokenQueue)
    (post : α → TokenQueue → Prop) (program : Program α) (q : TokenQueue) : Prop :=
  ∃ calls r q', Runs program q calls r q' ∧
    match r with
    | .ok result => post result q'
    | .error failure => answer = (.error failure, q')

section Rules

variable {answer : Except Failure (Option Statement) × TokenQueue} {n m : Nat}
  {reader other : Reader} {q q₁ : TokenQueue} {t : Token}

theorem Stands.mono (h : Stands answer m reader q) (hm : m ≤ n) : Stands answer n reader q :=
  ⟨h.run, h.unexhausted, Nat.le_trans h.size hm⟩

theorem Stands.next (h : Stands answer n reader q) (hn : q.next = (.ok t, q₁)) :
    Fed answer n t q₁ (reader.feed t) := by
  have hrun := h.run
  rw [run_next hn] at hrun
  cases hv : reader.feed t with
  | accept statement =>
    rw [hv] at hrun
    exact hrun.symm
  | reject expected taken =>
    rw [hv] at hrun
    exact hrun.symm
  | shift next =>
    rw [hv] at hrun
    have hkind : t.kind ≠ .endOfInput := fun ht => feed_endOfInput ht hv
    have hlt := TokenQueue.size_next_lt hn
    refine ⟨q₁.size, Nat.lt_of_lt_of_le hlt h.size, hrun, ?_, Nat.le_refl _⟩
    simp [TokenQueue.exhausted_next hn, h.unexhausted, hkind]

theorem Stands.peek (h : Stands answer n reader q) (hp : q.peek = (.ok t, q₁)) :
    Stands answer n reader q₁ ∧ q₁.lookahead = some t := by
  obtain ⟨hl, he, hs, hn⟩ := TokenQueue.next_of_peek hp
  refine ⟨⟨?_, he.trans h.unexhausted, Nat.le_trans hs h.size⟩, hl⟩
  rw [← run_eq_of_next hn]
  exact h.run

/-- Two readers that do the same with the token ahead stand at one place. -/
theorem Stands.congr (h : Stands answer n reader q) (hl : q.lookahead = some t)
    (hf : reader.feed t = other.feed t) : Stands answer n other q := by
  refine ⟨?_, h.unexhausted, h.size⟩
  rw [run_next (TokenQueue.next_held hl), ← hf, ← run_next (TokenQueue.next_held hl)]
  exact h.run

theorem Stands.refused {expected : Text} (h : Stands answer n reader q)
    (hl : q.lookahead = some t) (hf : reader.feed t = .reject expected false) :
    answer = (.error (.grammar t.position t.kind expected), q) := by
  have hfed := h.next (TokenQueue.next_held hl)
  rw [hf] at hfed
  exact hfed.trans (by rw [if_neg Bool.false_ne_true, TokenQueue.putBack_handOut h.unexhausted hl])

variable {α β : Type} {post : α → TokenQueue → Prop}

theorem Meets.done {result : α} (h : post result q) : Meets answer post (.done result) q :=
  ⟨_, _, _, .done result q, h⟩

theorem Meets.unexpected {expected : Text}
    (h : answer = (.error (.grammar t.position t.kind expected), q)) :
    Meets answer post (.unexpected t expected) q :=
  ⟨_, _, _, .fail _ q, h⟩

theorem Fed.shift {verdict : Verdict} (h : Fed answer n t q verdict)
    (hv : verdict = .shift reader) : ∃ m < n, Stands answer m reader q := by
  subst hv
  exact h

theorem Fed.accept {verdict : Verdict} {statement : Option Statement}
    (h : Fed answer n t q verdict) (hv : verdict = .accept statement) :
    answer = (.ok statement, q) := by
  subst hv
  exact h

theorem Fed.reject {verdict : Verdict} {expected : Text} (h : Fed answer n t q verdict)
    (hv : verdict = .reject expected true) : Meets answer post (.unexpected t expected) q := by
  subst hv
  exact .unexpected h

theorem Meets.peek {rest : Token → Program α} (h : Stands answer n reader q)
    (hr : ∀ t q₁, Stands answer n reader q₁ → q₁.lookahead = some t →
      Meets answer post (rest t) q₁) : Meets answer post (.peek rest) q := by
  cases hp : q.peek with
  | mk r q₁ =>
    cases r with
    | error failure =>
      refine ⟨_, _, _, .peekFails hp, ?_⟩
      rw [← h.run]
      exact run_error (TokenQueue.next_of_peek_error hp) reader
    | ok t =>
      obtain ⟨hs, hl⟩ := h.peek hp
      obtain ⟨calls, r, q', hruns, hpost⟩ := hr t q₁ hs hl
      exact ⟨_, r, q', .peek hp hruns, hpost⟩

theorem Meets.see {rest : Token → Program α} (hl : q.lookahead = some t)
    (hr : Meets answer post (rest t) q) : Meets answer post (.peek rest) q := by
  obtain ⟨calls, r, q', hruns, hpost⟩ := hr
  exact ⟨_, r, q', .peek (TokenQueue.peek_held hl) hruns, hpost⟩

theorem Meets.next {rest : Token → Program α} (h : Stands answer n reader q)
    (hr : ∀ t q₁, q.next = (.ok t, q₁) → Fed answer n t q₁ (reader.feed t) →
      Meets answer post (rest t) q₁) : Meets answer post (.next rest) q := by
  cases hn : q.next with
  | mk r q₁ =>
    cases r with
    | error failure =>
      refine ⟨_, _, _, .nextFails hn, ?_⟩
      rw [← h.run]
      exact run_error hn reader
    | ok t =>
      obtain ⟨calls, r, q', hruns, hpost⟩ := hr t q₁ hn (h.next hn)
      exact ⟨_, r, q', .next hn hruns, hpost⟩

theorem Meets.take {rest : Token → Program α} (h : Stands answer n reader q)
    (hl : q.lookahead = some t)
    (hr : ∀ q₁, Fed answer n t q₁ (reader.feed t) → Meets answer post (rest t) q₁) :
    Meets answer post (.next rest) q := by
  refine Meets.next h fun u q₁ hn hfed => ?_
  rw [TokenQueue.next_held hl] at hn
  cases hn
  exact hr _ hfed

theorem Meets.again {rest : Token → Program α} (hn : q₁.next = (.ok t, q))
    (hr : Meets answer post (rest t) q) : Meets answer post (.putBack t (.next rest)) q := by
  obtain ⟨calls, r, q', hruns, hpost⟩ := hr
  exact ⟨_, r, q', .putBack (.next (TokenQueue.next_putBack hn) hruns), hpost⟩

theorem Meets.read {phrase : Production β} {rest : β → Program α} {mid : β → TokenQueue → Prop}
    (h : Meets answer mid phrase.program q)
    (hr : ∀ result q₁, mid result q₁ → Meets answer post (rest result) q₁) :
    Meets answer post (.read phrase rest) q := by
  obtain ⟨calls, r, q₁, hruns, hmid⟩ := h
  cases r with
  | error failure => exact ⟨_, _, _, .readFails hruns, hmid⟩
  | ok result =>
    obtain ⟨others, r, q', hrest, hpost⟩ := hr result q₁ hmid
    exact ⟨_, r, q', .read hruns hrest, hpost⟩

theorem Meets.last {phrase : Production α} (h : Meets answer post phrase.program q) :
    Meets answer post (.read phrase .done) q :=
  h.read fun _ _ => .done

end Rules

end Descent

end TinyShell
