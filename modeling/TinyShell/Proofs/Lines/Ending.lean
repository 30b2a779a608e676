import TinyShell.Proofs.Lines.Composition
import TinyShell.Proofs.Lines.Rounds
import TinyShell.Proofs.Tokens.Along

/-!
# Reading comes to an end

Each call that is followed by another has passed a character, or drops one
with the rest of its line. So there are not many more calls than characters,
and the last one has seen that the input has ended or cannot be read on. From
then on there is nothing left to find.
-/

set_option autoImplicit false

namespace TinyShell

namespace Input

def delivered (bytes : Bytes) : Option (Nat × Text) → Input
  | none => ofBytes bytes
  | some (limit, reason) => failing bytes limit reason

theorem length_delivered (bytes : Bytes) (fault : Option (Nat × Text)) :
    (delivered bytes fault).text.length ≤ (Utf8.decode bytes).length := by
  cases fault with
  | none => exact Nat.le_of_eq (congrArg List.length (text_ofBytes bytes))
  | some fault => exact (text_failing bytes fault.1 fault.2).length_le

end Input

namespace Cursor

variable {c c' : Cursor} {r : Except Failure (Option Char)}

def unread (c : Cursor) : Nat := c.ahead.length

theorem unread_peek (h : c.peek = (r, c')) : c'.unread = c.unread := by
  unfold peek at h
  split at h <;> obtain ⟨_, rfl⟩ := Prod.mk.inj h
  case h_4 hr hu _ => simp [unread, ahead, hr, hu]
  all_goals rfl

theorem unread_advance {x : Char} {rest : Text} (h : c.rest = x :: rest) :
    c.advance.unread < c.unread := by
  simp [unread, ahead_advance h]

theorem unread_advance_of_peek {x : Char} (h : c.peek = (.ok (some x), c')) :
    c'.advance.unread < c.unread := by
  obtain ⟨rest, hr⟩ := rest_of_peek_some h
  rw [← unread_peek h]
  exact unread_advance hr

theorem unread_clear_le (c : Cursor) : c.clear.unread ≤ c.unread := by
  simp [unread, ahead, clear]

theorem unread_clear_lt {x : Char} {rest : Text} (h : c.rest = x :: rest) :
    c.clear.unread < c.unread := by
  simp only [unread, ahead, clear, h, List.nil_append, List.cons_append, List.length_cons,
    List.length_append]
  omega

def Dry (c : Cursor) : Prop := c.phase = .closed ∨ c.phase = .ended ∧ c.rest = []

theorem dry_of_peek_error {failure : Failure} (h : c.peek = (.error failure, c')) : c'.Dry := by
  unfold peek at h
  split at h <;> cases h
  next hp => exact .inl hp
  next hr _ _ => exact .inr ⟨rfl, hr⟩

theorem Dry.peek (h : c.Dry) (hp : c.peek = (r, c')) :
    c'.phase = .closed ∧ (r = .ok none ∨ r = .error .inputClosed) := by
  unfold Cursor.peek at hp
  rcases h with h | ⟨h, hr⟩
  · simp only [h] at hp
    cases hp
    exact ⟨h, .inr rfl⟩
  · simp only [h, hr] at hp
    cases hp
    exact ⟨rfl, .inl rfl⟩

theorem Dry.clear (h : c.Dry) : c.clear.Dry :=
  h.imp id fun hp => ⟨hp.1, rfl⟩

end Cursor

namespace Scanner

variable {start : Position} {text : Text} {state : Scan} {c : Cursor} {r : Except Failure Token}
  {s s' : Scanner} {t : Token} {failure : Failure}

theorem finish_cursor (h : finish start text state c = (r, s)) : s.cursor = c := by
  unfold finish at h
  split at h <;> cases h <;> rfl

theorem unread_scan_le (h : scan start text state c = (r, s)) : s.cursor.unread ≤ c.unread := by
  fun_induction scan start text state c with
  | case1 _ _ _ _ _ _ hp | case5 _ _ _ _ _ _ hp | case8 _ _ _ _ _ _ hp =>
    cases h
    exact Nat.le_of_eq (Cursor.unread_peek hp)
  | case2 _ _ _ _ _ hp =>
    rw [finish_cursor h]
    exact Nat.le_of_eq (Cursor.unread_peek hp)
  | case3 _ _ _ _ _ _ hp _ _ _ ih | case4 _ _ _ _ _ _ hp _ _ _ ih =>
    exact Nat.le_trans (ih h) (Nat.le_of_lt (Cursor.unread_advance_of_peek hp))
  | case6 _ _ _ _ _ _ hp | case7 _ _ _ _ _ _ hp =>
    cases h
    exact Nat.le_of_lt (Cursor.unread_advance_of_peek hp)
  | case9 _ _ _ _ _ _ _ hk | case10 _ _ _ _ _ _ _ hk | case11 _ _ _ _ _ _ _ hk =>
    simp [Scan.onChar_ne_none] at hk

theorem unread_clear_le (s : Scanner) : s.clear.cursor.unread ≤ s.cursor.unread :=
  s.cursor.unread_clear_le

/-- A token that is not the end of the input has a character of its own; so has
a failure to read one, though it may only go with its line. -/
theorem unread_scan_lt (h : scan start text .gap c = (r, s)) (hi : Inner r) :
    s.clear.cursor.unread < c.unread ∧ ∀ t, r = .ok t → s.cursor.unread < c.unread := by
  have passed {c' : Cursor} (hle : s.cursor.unread ≤ c'.unread) (hlt : c'.unread < c.unread) :
      s.clear.cursor.unread < c.unread ∧ ∀ t, r = .ok t → s.cursor.unread < c.unread := by
    have hclear := s.unread_clear_le
    exact ⟨by omega, fun _ _ => by omega⟩
  rw [scan] at h
  split at h
  next hp =>
    cases h
    simp only [Inner, Cursor.endsInput_of_peek hp] at hi
    cases hi
  next =>
    cases h
    exact absurd rfl hi
  next x c' hp =>
    have hlt := Cursor.unread_advance_of_peek hp
    split at h
    next => exact passed (unread_scan_le h) hlt
    next => exact passed (unread_scan_le h) hlt
    next hs => exact absurd hs (Scan.onChar_gap_ne_stop _ _)
    next =>
      cases h
      exact passed (Nat.le_refl _) hlt
    next =>
      cases h
      exact passed (Nat.le_refl _) hlt
    next =>
      cases h
      -- The refused character is not passed, but it goes with its line.
      obtain ⟨rest, hr⟩ := Cursor.rest_of_peek_some hp
      refine ⟨?_, by simp⟩
      rw [← Cursor.unread_peek hp]
      exact Cursor.unread_clear_lt hr
    next hs => exact absurd hs (Scan.onChar_gap_ne_stop _ _)
    next hs => exact absurd hs Scan.onChar_ne_none.2.1
    next hs => exact absurd hs Scan.onChar_ne_none.2.2

/-- The end of the input is only delivered, or kept to be delivered, by a dry
cursor; and a failure that ends the input leaves one. -/
structure Noted (r : Except Failure Token) (s : Scanner) : Prop where
  pending : s.endPending = true → s.cursor.Dry
  delivered : ∀ t, r = .ok t → t.kind = .endOfInput → s.cursor.Dry
  ended : ∀ failure, r = .error failure → failure.endsInput = true → s.cursor.Dry

theorem noted_inner (hp : s.endPending = false) (hi : Inner r) : Noted r s where
  pending := fun hpending => by
    rw [hp] at hpending
    cases hpending
  delivered := fun t ht hk => by
    subst ht
    exact absurd hk hi
  ended := fun failure hf he => by
    subst hf
    rw [Inner, he] at hi
    cases hi

theorem noted_dry (h : s.cursor.Dry) : Noted r s :=
  ⟨fun _ => h, fun _ _ _ => h, fun _ _ _ => h⟩

theorem scan_noted (h : scan start text state c = (r, s)) : Noted r s := by
  fun_induction scan start text state c with
  | case1 _ _ _ _ _ _ hp =>
    cases h
    exact noted_dry (Cursor.dry_of_peek_error hp)
  | case2 _ _ _ _ _ hp =>
    refine noted_dry ?_
    rw [finish_cursor h]
    exact .inl (Cursor.phase_of_peek_none hp).1
  | case3 _ _ _ _ _ _ _ _ _ _ ih | case4 _ _ _ _ _ _ _ _ _ _ ih => exact ih h
  | case5 _ _ _ _ _ _ _ _ kind hm =>
    cases h
    exact noted_inner rfl fun hk : kind = .endOfInput =>
      (Scan.onChar_ne_endOfInput _ _).1 (hk ▸ hm)
  | case6 _ _ _ _ _ _ _ _ kind hm =>
    cases h
    exact noted_inner rfl
      fun hk : kind = .endOfInput => (Scan.onChar_ne_endOfInput _ _).2.1 (hk ▸ hm)
  | case7 _ _ _ _ _ _ _ _ kind hm =>
    cases h
    exact noted_inner rfl
      fun hk : kind = .endOfInput => (Scan.onChar_ne_endOfInput _ _).2.2 (hk ▸ hm)
  | case8 =>
    cases h
    exact noted_inner rfl rfl
  | case9 _ _ _ _ _ _ _ hk | case10 _ _ _ _ _ _ _ hk | case11 _ _ _ _ _ _ _ hk =>
    simp [Scan.onChar_ne_none] at hk

theorem unread_next_le (h : s.next = (r, s')) : s'.cursor.unread ≤ s.cursor.unread := by
  unfold next at h
  split at h
  next =>
    cases h
    exact Nat.le_refl _
  next => exact unread_scan_le h

theorem unread_next_lt (h : s.next = (r, s')) (hi : Inner r) :
    s'.clear.cursor.unread < s.cursor.unread ∧
      ∀ t, r = .ok t → s'.cursor.unread < s.cursor.unread := by
  unfold next at h
  split at h
  next =>
    cases h
    exact absurd rfl hi
  next => exact unread_scan_lt h hi

theorem next_noted (hp : s.endPending = true → s.cursor.Dry) (h : s.next = (r, s')) :
    Noted r s' := by
  unfold next at h
  split at h
  next hpending =>
    cases h
    exact noted_dry (hp hpending)
  next => exact scan_noted h

/-- After a dry cursor there is only the end of the input, and failures. -/
theorem next_dry (h : s.cursor.Dry) (hn : s.next = (r, s')) :
    s'.cursor.Dry ∧ ∀ t, r = .ok t → t.kind = .endOfInput := by
  unfold next at hn
  split at hn
  next =>
    cases hn
    refine ⟨h, fun t ht => ?_⟩
    cases ht
    rfl
  next =>
    cases hp : s.cursor.peek with
    | mk shown c' =>
      obtain ⟨hclosed, rfl | rfl⟩ := h.peek hp
      · rw [scan, hp] at hn
        cases hn
        refine ⟨.inl hclosed, fun t ht => ?_⟩
        cases ht
        rfl
      · rw [scan, hp] at hn
        cases hn
        exact ⟨.inl hclosed, by simp⟩

end Scanner

namespace TokenQueue

variable {q q' : TokenQueue} {r : Except Failure Token} {t : Token}

def unread (q : TokenQueue) : Nat := q.scanner.cursor.unread

structure Noted (q : TokenQueue) : Prop where
  pending : q.scanner.endPending = true → q.scanner.cursor.Dry
  met : q.metEnd = true → q.scanner.cursor.Dry

def Cleared (q : TokenQueue) : Prop := ∀ t, q.lookahead = some t → t.kind = .endOfInput

theorem cleared_of_free (h : q.lookahead = none) : q.Cleared := by
  intro t ht
  rw [h] at ht
  cases ht

theorem next_held (hl : q.lookahead = some t) : q.next = (.ok t, q.handOut t) := by
  simp only [TokenQueue.next, hl]

theorem next_scanned (hl : q.lookahead = none) (h : q.next = (r, q')) :
    q.scanner.next = (r, q'.scanner) ∧ q'.lookahead = none ∧
      (q'.exhausted = true → q.exhausted = true ∨ ∃ t, r = .ok t ∧ t.kind = .endOfInput) := by
  simp only [TokenQueue.next, hl] at h
  cases hs : q.scanner.next with
  | mk answer s =>
    rw [hs] at h
    cases answer with
    | ok t =>
      cases h
      exact ⟨rfl, rfl, fun he => by simpa [handOut] using he⟩
    | error failure =>
      cases h
      exact ⟨rfl, rfl, .inl⟩

theorem unread_next_le (h : q.next = (r, q')) : q'.unread ≤ q.unread := by
  cases hl : q.lookahead with
  | some t =>
    rw [next_held hl] at h
    cases h
    exact Nat.le_refl _
  | none => exact Scanner.unread_next_le (next_scanned hl h).1

theorem unread_next_lt (hc : q.Cleared) (h : q.next = (r, q')) (hi : Inner r) :
    q'.clear.unread < q.unread ∧ ∀ t, r = .ok t → q'.unread < q.unread := by
  cases hl : q.lookahead with
  | some t =>
    rw [next_held hl] at h
    cases h
    exact absurd (hc t hl) hi
  | none =>
    obtain ⟨hs, hfree, _⟩ := next_scanned hl h
    have hclear : q'.clear.unread = q'.scanner.clear.cursor.unread := by
      simp only [clear, hfree, unread]
    rw [hclear]
    exact Scanner.unread_next_lt hs hi

theorem next_dry (hc : q.Cleared) (hd : q.scanner.cursor.Dry) (h : q.next = (r, q')) :
    q'.Cleared ∧ q'.scanner.cursor.Dry ∧ ∀ t, r = .ok t → t.kind = .endOfInput := by
  cases hl : q.lookahead with
  | some t =>
    rw [next_held hl] at h
    cases h
    refine ⟨cleared_of_free rfl, hd, fun u hu => ?_⟩
    cases hu
    exact hc t hl
  | none =>
    obtain ⟨hs, hfree, _⟩ := next_scanned hl h
    exact ⟨cleared_of_free hfree, Scanner.next_dry hd hs⟩

theorem next_noted (hn : q.Noted) (h : q.next = (r, q')) :
    q'.Noted ∧ Scanner.Noted r q'.scanner := by
  cases hl : q.lookahead with
  | some t =>
    rw [next_held hl] at h
    cases h
    have delivered (he : t.kind = .endOfInput) : q.scanner.cursor.Dry :=
      hn.met (by simp [metEnd, hl, he])
    refine ⟨⟨hn.pending, fun hm => ?_⟩, hn.pending, fun u hu he => ?_, by simp⟩
    · have hmet : q.exhausted = true ∨ t.kind = .endOfInput := by
        simpa [metEnd, handOut] using hm
      rcases hmet with he | he
      · exact hn.met (by simp [metEnd, he])
      · exact delivered he
    · cases hu
      exact delivered he
  | none =>
    obtain ⟨hs, hfree, hexhausted⟩ := next_scanned hl h
    have hnoted := Scanner.next_noted hn.pending hs
    refine ⟨⟨hnoted.pending, fun hm => ?_⟩, hnoted⟩
    have hmet : q'.exhausted = true := by simpa [metEnd, hfree] using hm
    rcases hexhausted hmet with he | ⟨t, ht, he⟩
    -- The end was met before, and a dry cursor stays dry.
    · exact (Scanner.next_dry (hn.met (by simp [metEnd, he])) hs).1
    · exact hnoted.delivered t ht he

theorem noted_putBack (hn : q.Noted) (hd : t.kind = .endOfInput → q.scanner.cursor.Dry) :
    (q.putBack t).Noted := by
  refine ⟨hn.pending, fun hm => ?_⟩
  have hmet : q.exhausted = true ∧ t.kind ≠ .endOfInput ∨ t.kind = .endOfInput := by
    simpa [metEnd, putBack] using hm
  rcases hmet with ⟨he, _⟩ | he
  · exact hn.met (by simp [metEnd, he])
  · exact hd he

theorem noted_clear (hn : q.Noted) : q.clear.Noted := by
  have cleared (hm : q.exhausted = true) : q.scanner.clear.cursor.Dry :=
    (hn.met (by simp [metEnd, hm])).clear
  have pending (hp : q.scanner.endPending = true) : q.scanner.clear.cursor.Dry :=
    (hn.pending hp).clear
  unfold clear
  split
  next hl => exact ⟨pending, fun hm => cleared (by simpa [metEnd, hl] using hm)⟩
  next t hl =>
    by_cases ht : t.kind = .endOfInput
    · rw [if_pos ht]
      exact noted_putBack hn fun _ => hn.met (by simp [metEnd, hl, ht])
    · rw [if_neg ht]
      exact ⟨pending, fun hm => cleared (by simpa [metEnd] using hm)⟩

theorem cleared_clear (q : TokenQueue) : q.clear.Cleared := by
  unfold clear
  split
  next hl => exact cleared_of_free hl
  next t hl =>
    by_cases ht : t.kind = .endOfInput
    · rw [if_pos ht]
      intro u hu
      cases hu
      exact ht
    · rw [if_neg ht]
      exact cleared_of_free rfl

theorem unread_clear_le (q : TokenQueue) : q.clear.unread ≤ q.unread := by
  unfold clear
  split
  next => exact q.scanner.unread_clear_le
  next =>
    split
    next => exact Nat.le_refl _
    next => exact q.scanner.unread_clear_le

end TokenQueue

namespace Reader

variable {reader : Reader} {q q' : TokenQueue} {t : Token}
  {r : Except Failure (Option Statement)}

theorem onRedirection_ne_accept {left : Option Statement} {level : Level} {outer : List Level}
    {o : Option Statement} : onRedirection left level outer t ≠ some (.accept o) := by
  unfold onRedirection awaitTarget
  split <;> (try split) <;> simp

theorem onChain_ne_accept {level : Level} {outer : List Level} {o : Option Statement} :
    onChain level outer t ≠ .accept o := by
  unfold onChain
  cases hr : onRedirection none level outer t with
  | none =>
    simp only [Option.getD_none]
    unfold onOperand
    split <;> simp
  | some verdict =>
    rintro rfl
    exact onRedirection_ne_accept hr

theorem onFollow_ne_accept_none {s : Statement} {level : Level} {outer : List Level} :
    onFollow s level outer t ≠ .accept none := by
  unfold onFollow
  split
  next verdict hr =>
    rintro rfl
    exact onRedirection_ne_accept hr
  next =>
    split
    next => simp
    next =>
      split
      next => simp
      next =>
        unfold onScope closeGroup
        split <;> split <;> simp

theorem feed_accept_none (h : reader.feed t = .accept none) : t.kind = .endOfInput := by
  cases reader with
  | idle =>
    simp only [feed] at h
    split at h
    next => cases h
    next => cases h
    next hk => exact hk
    next => exact absurd h onChain_ne_accept
  | inside stage level outer =>
    exfalso
    revert h
    cases stage with
    | chain spread =>
      simp only [feed, onStage]
      split
      next => simp
      next => exact onChain_ne_accept
    | operand =>
      simp only [feed, onStage, onOperand]
      split <;> simp
    | words head latest =>
      simp only [feed, onStage]
      split
      next => simp
      next => exact onFollow_ne_accept_none
    | target arrow left =>
      simp only [feed, onStage]
      split <;> simp
    | follow s => exact onFollow_ne_accept_none
    | separated s =>
      simp only [feed, onStage]
      split
      next => simp
      next => simp
      next => exact onChain_ne_accept
    | groupSeparated s =>
      simp only [feed, onStage, closeGroup]
      split
      next => simp
      next => simp
      next => exact onChain_ne_accept

theorem unread_run_le (h : reader.run q = (r, q')) : q'.unread ≤ q.unread := by
  fun_induction run reader q with
  | case1 _ _ _ _ hn | case3 _ _ _ _ hn =>
    cases h
    exact TokenQueue.unread_next_le hn
  | case2 _ _ _ _ hn _ _ ih => exact Nat.le_trans (ih h) (TokenQueue.unread_next_le hn)
  | case4 _ _ _ _ hn _ taken =>
    cases h
    have hle := TokenQueue.unread_next_le hn
    cases taken <;> exact hle

theorem unread_run_lt (hc : q.Cleared) (h : idle.run q = (r, q')) :
    (∀ s, r = .ok (some s) → q'.unread < q.unread) ∧
      ∀ failure, r = .error failure → failure.endsInput = false → q'.clear.unread < q.unread := by
  rw [run] at h
  split at h
  next failure q₁ hn =>
    cases h
    refine ⟨by simp, fun failure hf he => ?_⟩
    cases hf
    exact (TokenQueue.unread_next_lt hc hn he).1
  next t q₁ hn =>
    by_cases ht : t.kind = .endOfInput
    · have hfeed : idle.feed t = .accept none := by simp [feed, ht]
      rw [hfeed] at h
      cases h
      exact ⟨by simp, by simp⟩
    -- The first token has passed a character, and what comes after it passes more or none.
    · have hlt := (TokenQueue.unread_next_lt hc hn ht).2 t rfl
      have hle : q'.unread ≤ q₁.unread := by
        split at h
        next => exact unread_run_le h
        next =>
          cases h
          exact Nat.le_refl _
        next taken _ =>
          cases h
          cases taken <;> exact Nat.le_refl _
      have hclear := q'.unread_clear_le
      exact ⟨fun _ _ => by omega, fun _ _ _ => by omega⟩

structure Left (r : Except Failure (Option Statement)) (q : TokenQueue) : Prop where
  noted : q.Noted
  free : (∀ failure, r = .error failure → failure.endsInput = true) → q.lookahead = none
  dry : TokenQueue.following (r, q) = none → q.scanner.cursor.Dry

theorem run_left (hn : q.Noted) (h : reader.run q = (r, q')) : Left r q' := by
  fun_induction run reader q with
  | case1 reader q failure q₁ hk =>
    cases h
    obtain ⟨hnoted, hs⟩ := TokenQueue.next_noted hn hk
    refine ⟨hnoted, fun _ => ?_, fun hf => ?_⟩
    · cases hl : q.lookahead with
      | none => exact (TokenQueue.next_scanned hl hk).2.1
      | some t =>
        rw [TokenQueue.next_held hl] at hk
        cases hk
    · exact hs.ended failure rfl (by simpa [TokenQueue.following] using hf)
  | case2 reader q t q₁ hk next hv ih => exact ih (TokenQueue.next_noted hn hk).1 h
  | case3 reader q t q₁ hk statement hv =>
    cases h
    obtain ⟨hnoted, hs⟩ := TokenQueue.next_noted hn hk
    refine ⟨hnoted, fun _ => TokenQueue.lookahead_next hk, fun hf => ?_⟩
    cases statement with
    | none => exact hs.delivered t rfl (feed_accept_none hv)
    | some s => cases hf
  | case4 reader q t q₁ hk expected taken hv =>
    cases h
    obtain ⟨hnoted, hs⟩ := TokenQueue.next_noted hn hk
    refine ⟨?_, fun he => absurd (he _ rfl) Bool.false_ne_true, fun hf => by cases hf⟩
    cases taken with
    | true => exact hnoted
    | false => exact TokenQueue.noted_putBack hnoted (hs.delivered t rfl)

end Reader

namespace TokenQueue

variable {q q' next : TokenQueue}

structure Ready (q : TokenQueue) : Prop where
  noted : q.Noted
  cleared : q.Cleared

structure Spent (q : TokenQueue) : Prop where
  cleared : q.Cleared
  dry : q.scanner.cursor.Dry

theorem read_unexhausted (h : q.exhausted = false) : q.read = Reader.idle.run q := by
  rw [read, if_neg (by simp [h])]

theorem read_exhausted (h : q.exhausted = true) : q.read = (.ok none, q) := by
  rw [read, if_pos h]

/-- What is answered otherwise than by an exhausted queue comes from a run. -/
theorem run_of_read {r : Except Failure (Option Statement)} (h : q.read = (r, q'))
    (hr : r ≠ .ok none) : Reader.idle.run q = (r, q') := by
  cases he : q.exhausted with
  | true =>
    rw [read_exhausted he] at h
    cases h
    exact absurd rfl hr
  | false =>
    rw [read_unexhausted he] at h
    exact h

theorem answer_of_following {r : Except Failure (Option Statement)}
    (h : following (r, q) = none) :
    r = .ok none ∨ r = .error .inputClosed ∨ ∃ reason, r = .error (.inputFault reason) := by
  cases r with
  | ok o =>
    cases o with
    | none => exact .inl rfl
    | some s => cases h
  | error failure =>
    have hends : failure.endsInput = true := by simpa [following] using h
    cases failure with
    | inputClosed => exact .inr (.inl rfl)
    | inputFault reason => exact .inr (.inr ⟨reason, rfl⟩)
    | _ => cases hends

theorem following_ready (h : q.Ready) (hf : following q.read = some next) :
    next.Ready ∧ next.unread < q.unread := by
  cases he : q.exhausted with
  | true =>
    rw [read_exhausted he] at hf
    cases hf
  | false =>
    rw [read_unexhausted he] at hf
    cases hr : Reader.idle.run q with
    | mk r q' =>
      have hleft := Reader.run_left h.noted hr
      obtain ⟨hstatement, hfailure⟩ := Reader.unread_run_lt h.cleared hr
      rw [hr] at hf
      cases r with
      | ok o =>
        cases o with
        | none => cases hf
        | some s =>
          cases hf
          exact ⟨⟨hleft.noted, cleared_of_free (hleft.free (by simp))⟩, hstatement s rfl⟩
      | error failure =>
        cases hends : failure.endsInput with
        | true => simp [following, hends] at hf
        | false =>
          simp only [following, hends, Bool.false_eq_true, if_false, Option.some.injEq] at hf
          subst hf
          exact ⟨⟨noted_clear hleft.noted, cleared_clear q'⟩, hfailure failure rfl hends⟩

theorem spent_of_following (h : q.Ready) (hf : following q.read = none) : q.read.2.Spent := by
  cases he : q.exhausted with
  | true =>
    rw [read_exhausted he]
    exact ⟨h.cleared, h.noted.met (by simp [metEnd, he])⟩
  | false =>
    rw [read_unexhausted he] at hf ⊢
    have hleft : Reader.Left (Reader.idle.run q).1 (Reader.idle.run q).2 :=
      Reader.run_left h.noted rfl
    refine ⟨cleared_of_free (hleft.free fun failure hfailure => ?_), hleft.dry hf⟩
    have hpair : Reader.idle.run q = (.error failure, (Reader.idle.run q).2) :=
      Prod.ext hfailure rfl
    rw [hpair] at hf
    simpa [following] using hf

theorem calls_ready (h : q.Ready) : q.calls.length ≤ q.unread + 1 ∧
    ∃ last, q.calls.getLast? = some last ∧ following last = none ∧ last.2.Spent := by
  induction q using calls.induct with
  | case1 q ih =>
    cases hf : following q.read with
    | none =>
      rw [calls_none hf]
      exact ⟨Nat.le_add_left 1 _, q.read, rfl, hf, spent_of_following h hf⟩
    | some next =>
      obtain ⟨hready, hlt⟩ := following_ready h hf
      obtain ⟨hlength, last, hlast, hend⟩ := ih next hf hready
      rw [calls_some hf]
      refine ⟨?_, last, ?_, hend⟩
      · rw [List.length_cons]
        omega
      · rw [List.getLast?_cons, hlast]
        rfl

inductive Later (q : TokenQueue) : TokenQueue → Prop
  | now : Later q q
  | read {q' : TokenQueue} (h : Later q q') : Later q q'.read.2
  | clear {q' : TokenQueue} (h : Later q q') : Later q q'.clear

structure Invariant (P : TokenQueue → Prop) : Prop where
  next : ∀ {q q' : TokenQueue} {r : Except Failure Token}, P q → q.next = (r, q') → P q'
  putBack : ∀ {reader : Reader} {q q' : TokenQueue} {t : Token} {expected : Text}, P q →
    q.next = (.ok t, q') → reader.feed t = .reject expected false → P (q'.putBack t)
  clear : ∀ {q : TokenQueue}, P q → P q.clear

namespace Invariant

variable {P : TokenQueue → Prop}

theorem run {reader : Reader} {r : Except Failure (Option Statement)} (hP : Invariant P) (h : P q)
    (hr : reader.run q = (r, q')) : P q' := by
  fun_induction Reader.run reader q with
  | case1 _ _ _ _ hn | case3 _ _ _ _ hn =>
    cases hr
    exact hP.next h hn
  | case2 _ _ _ _ hn _ _ ih => exact ih (hP.next h hn) hr
  | case4 _ _ _ _ hn _ taken hk =>
    cases hr
    cases taken with
    | true => exact hP.next h hn
    | false => exact hP.putBack h hn hk

theorem read (hP : Invariant P) (h : P q) : P q.read.2 := by
  cases he : q.exhausted with
  | true =>
    rw [read_exhausted he]
    exact h
  | false =>
    rw [read_unexhausted he]
    exact hP.run h rfl

theorem later (hP : Invariant P) (h : P q) (hl : q.Later q') : P q' := by
  induction hl with
  | now => exact h
  | read _ ih => exact hP.read ih
  | clear _ ih => exact hP.clear ih

end Invariant

theorem spent_read (h : q.Spent) : q.read.2.Spent ∧ ∀ s, q.read.1 ≠ .ok (some s) := by
  cases he : q.exhausted with
  | true =>
    rw [read_exhausted he]
    exact ⟨h, by simp⟩
  | false =>
    rw [read_unexhausted he, Reader.run]
    split
    next hn =>
      obtain ⟨hcleared, hdry, _⟩ := next_dry h.cleared h.dry hn
      exact ⟨⟨hcleared, hdry⟩, by simp⟩
    next t q₁ hn =>
      obtain ⟨hcleared, hdry, hkind⟩ := next_dry h.cleared h.dry hn
      have hfeed : Reader.idle.feed t = .accept none := by simp [Reader.feed, hkind t rfl]
      rw [hfeed]
      exact ⟨⟨hcleared, hdry⟩, by simp⟩

theorem spent_clear (h : q.Spent) : q.clear.Spent := by
  refine ⟨cleared_clear q, ?_⟩
  unfold clear
  split
  next => exact h.dry.clear
  next =>
    split
    next => exact h.dry
    next => exact h.dry.clear

theorem spent_later (h : q.Spent) (hl : q.Later q') : q'.Spent := by
  induction hl with
  | now => exact h
  | read _ ih => exact (spent_read ih).1
  | clear _ ih => exact spent_clear ih

theorem ready_ofInput (input : Input) : (ofInput input).Ready :=
  ⟨⟨nofun, nofun⟩, nofun⟩

theorem unread_ofInput (input : Input) : (ofInput input).unread = input.text.length := rfl

/-- Whatever the bytes are, and wherever the reader may fail: no call makes
more rounds than its queue is large; there is at most one call more than the
input has characters, and the last one finds the end of the input or a failure
that ends it; no later call finds a statement. -/
theorem reading_ends (bytes : Bytes) (fault : Option (Nat × Text)) :
    (∀ (q : TokenQueue) (n : Nat), q.size < n → q.readWithin n = some q.read) ∧
    (ofInput (.delivered bytes fault)).calls.length ≤ (Utf8.decode bytes).length + 1 ∧
    ∃ answer last, (ofInput (.delivered bytes fault)).calls.getLast? = some (answer, last) ∧
      (answer = .ok none ∨ answer = .error .inputClosed ∨
        ∃ reason, answer = .error (.inputFault reason)) ∧
      ∀ later, last.Later later → ∀ s, later.read.1 ≠ .ok (some s) := by
  obtain ⟨hlength, ⟨answer, last⟩, hlast, hend, hspent⟩ :=
    calls_ready (ready_ofInput (.delivered bytes fault))
  refine ⟨fun _ _ => readWithin_eq, ?_, answer, last, hlast, ?_, ?_⟩
  · rw [unread_ofInput] at hlength
    have hle := Input.length_delivered bytes fault
    omega
  · exact answer_of_following hend
  · exact fun later hl => (spent_read (spent_later hspent hl)).2

end TokenQueue

end TinyShell
