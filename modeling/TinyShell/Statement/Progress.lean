import TinyShell.Statement.Reading

/-!
# Progress of reading

Every statement, and every failure that does not end the input, uses up some
of the input once the rest of its line has been dropped. A loop that reads
statement after statement therefore comes to an end.
-/

set_option autoImplicit false

namespace TinyShell

theorem Cursor.endsInput_of_peek {c c' : Cursor} {failure : Failure}
    (h : c.peek = (.error failure, c')) : failure.endsInput = true := by
  unfold Cursor.peek at h
  split at h <;> simp_all <;> (obtain ⟨rfl, _⟩ := h; rfl)

namespace Scanner

theorem character_of_scan {start : Position} {text : Text} {state : Scan} {c : Cursor}
    {failure : Failure} {s : Scanner} (h : scan start text state c = (.error failure, s))
    (he : failure.endsInput = false) :
    ∃ p found expected, failure = .character p found expected := by
  fun_induction scan start text state c with
  | case1 _ _ _ _ _ _ hp =>
    obtain ⟨hf, _⟩ := Prod.mk.inj h
    cases hf
    simp [Cursor.endsInput_of_peek hp] at he
  | case2 =>
    unfold finish at h
    split at h
    next =>
      obtain ⟨hf, _⟩ := Prod.mk.inj h
      cases hf
      exact ⟨_, _, _, rfl⟩
    next => cases h
    next hk => exact absurd hk Scan.onEnd_ne_none
  | case3 _ _ _ _ _ _ _ _ _ _ ih | case4 _ _ _ _ _ _ _ _ _ _ ih => exact ih h
  | case5 | case6 | case7 => cases h
  | case8 =>
    obtain ⟨hf, _⟩ := Prod.mk.inj h
    cases hf
    exact ⟨_, _, _, rfl⟩
  | case9 _ _ _ _ _ _ _ hm | case10 _ _ _ _ _ _ _ hm | case11 _ _ _ _ _ _ _ hm =>
    simp [Scan.onChar_ne_none] at hm

theorem character_of_next {s s' : Scanner} {failure : Failure}
    (h : s.next = (.error failure, s')) (he : failure.endsInput = false) :
    ∃ p found expected, failure = .character p found expected := by
  unfold next at h
  split at h
  next => cases h
  next => exact character_of_scan h he

end Scanner

namespace TokenQueue

theorem character_of_next {q q' : TokenQueue} {failure : Failure}
    (h : q.next = (.error failure, q')) (he : failure.endsInput = false) :
    ∃ p found expected, failure = .character p found expected := by
  unfold next at h
  split at h
  next => cases h
  next =>
    split at h
    next => cases h
    next hs =>
      obtain ⟨hf, _⟩ := Prod.mk.inj h
      cases hf
      exact Scanner.character_of_next hs he

end TokenQueue

namespace Reader

theorem onOperand_taken {level : Level} {outer : List Level} {t : Token} {expected : Text}
    {taken : Bool} (h : onOperand level outer t = .reject expected taken) : taken = true := by
  unfold onOperand at h
  split at h <;> simp_all

theorem onRedirection_taken {left : Option Statement} {level : Level} {outer : List Level}
    {t : Token} {expected : Text} {taken : Bool}
    (h : onRedirection left level outer t = some (.reject expected taken)) : taken = true := by
  unfold onRedirection awaitTarget at h
  split at h <;> (try split at h) <;> simp_all

theorem onChain_taken {level : Level} {outer : List Level} {t : Token} {expected : Text}
    {taken : Bool} (h : onChain level outer t = .reject expected taken) : taken = true := by
  unfold onChain at h
  cases hr : onRedirection none level outer t with
  | none => exact onOperand_taken (by simpa [hr] using h)
  | some verdict =>
    rw [hr] at h
    cases h
    exact onRedirection_taken hr

theorem feed_idle_taken {t : Token} {expected : Text} {taken : Bool}
    (h : idle.feed t = .reject expected taken) : taken = true := by
  simp only [feed] at h
  split at h
  next => cases h
  next => cases h
  next => cases h
  next => exact onChain_taken h

theorem size_run_le {reader : Reader} {q q' : TokenQueue}
    {r : Except Failure (Option Statement)} (h : reader.run q = (r, q')) :
    q'.size ≤ q.size := by
  fun_induction run reader q with
  | case1 _ _ _ _ hn =>
    obtain ⟨_, rfl⟩ := Prod.mk.inj h
    exact TokenQueue.size_next_le hn
  | case2 _ _ _ _ hn _ _ ih => exact Nat.le_trans (ih h) (TokenQueue.size_next_le hn)
  | case3 _ _ _ _ hn =>
    obtain ⟨_, rfl⟩ := Prod.mk.inj h
    exact TokenQueue.size_next_le hn
  | case4 _ _ _ _ hn _ taken =>
    obtain ⟨_, rfl⟩ := Prod.mk.inj h
    cases taken
    · exact TokenQueue.size_putBack_le_of_next hn
    · exact TokenQueue.size_next_le hn

theorem size_run_lt {reader : Reader} {q q' : TokenQueue} {s : Option Statement}
    (h : reader.run q = (.ok s, q')) : q'.size < q.size := by
  rw [run] at h
  split at h
  next => cases h
  next hn =>
    have hlt := TokenQueue.size_next_lt hn
    split at h
    next => exact Nat.lt_of_le_of_lt (size_run_le h) hlt
    next =>
      obtain ⟨_, rfl⟩ := Prod.mk.inj h
      exact hlt
    next => cases h

theorem size_clear_run_lt {q q' : TokenQueue} {failure : Failure}
    (h : idle.run q = (.error failure, q')) (he : failure.endsInput = false) :
    q'.clear.size < q.size := by
  rw [run] at h
  split at h
  next hn =>
    obtain ⟨hf, rfl⟩ := Prod.mk.inj h
    cases hf
    obtain ⟨_, _, _, rfl⟩ := TokenQueue.character_of_next hn he
    exact TokenQueue.size_clear_next_lt hn
  next hn =>
    have hlt := TokenQueue.size_next_lt hn
    split at h
    next =>
      exact Nat.lt_of_le_of_lt (TokenQueue.size_clear_le _)
        (Nat.lt_of_le_of_lt (size_run_le h) hlt)
    next => cases h
    next hr =>
      obtain ⟨_, rfl⟩ := Prod.mk.inj h
      rw [feed_idle_taken hr]
      exact Nat.lt_of_le_of_lt (TokenQueue.size_clear_le _) hlt

end Reader

namespace TokenQueue

theorem size_read_lt {q q' : TokenQueue} {s : Statement} (h : q.read = (.ok (some s), q')) :
    q'.size < q.size := by
  unfold read at h
  split at h
  next => cases h
  next => exact Reader.size_run_lt h

theorem size_clear_read_lt {q q' : TokenQueue} {failure : Failure}
    (h : q.read = (.error failure, q')) (he : failure.endsInput = false) :
    q'.clear.size < q.size := by
  unfold read at h
  split at h
  next => cases h
  next => exact Reader.size_clear_run_lt h he

end TokenQueue

end TinyShell
