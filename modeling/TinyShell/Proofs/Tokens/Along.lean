import TinyShell.Proofs.Lines.Standing
import TinyShell.Proofs.Text.Decoding
import TinyShell.Proofs.Tokens.Layout

/-!
# Scanning along a text

A cursor that has passed some text shows what follows it, whatever lines it
comes in, and its position is that after the text. So what a scanner does is
what its automaton makes of the text ahead.
-/

set_option autoImplicit false

namespace TinyShell

namespace Cursor

def ahead (c : Cursor) : Text := c.rest ++ c.upcoming.flatMap Line.text

structure Follows (passed : Text) (c : Cursor) : Prop where
  reading : c.phase = .reading
  faultless : c.fault = none
  unbroken : c.rest.Unbroken
  finished : c.rest ≠ [] → c.upcoming ≠ [] → Text.Finished c.rest
  parted : Parted false c.upcoming
  lines : ∀ line ∈ c.upcoming, line.text.Unbroken
  here : c.rest ≠ [] → Position.after passed = ⟨c.lineNumber, c.column + 1⟩
  beyond : c.rest = [] → c.upcoming ≠ [] → Position.after passed = ⟨c.lineNumber + 1, 1⟩

variable {passed : Text} {c : Cursor}

theorem Follows.position (h : c.Follows passed) (hr : c.rest ≠ []) :
    c.position = Position.after passed := by
  have hpos := h.here hr
  have hline : 1 ≤ (Position.after passed).line := Nat.succ_pos _
  rw [hpos] at hline
  rw [hpos, Cursor.position, Nat.max_eq_left hline]

theorem ahead_advance {x : Char} {rest : Text} (hr : c.rest = x :: rest) :
    c.ahead = x :: c.advance.ahead := by
  simp [ahead, advance, hr]

theorem Follows.advance (h : c.Follows passed) {x : Char} {rest : Text}
    (hr : c.rest = x :: rest) : c.advance.Follows (passed ++ [x]) := by
  have hadvance : c.advance = { c with rest := rest, column := c.column + 1 } := by
    simp [Cursor.advance, hr]
  have hpos := h.here (by simp [hr])
  have hunbroken := h.unbroken
  have hfinished := h.finished (by simp [hr])
  rw [hr] at hunbroken hfinished
  rw [hadvance]
  cases rest with
  | nil =>
    refine ⟨h.reading, h.faultless, List.not_mem_nil, fun hne => absurd rfl hne, h.parted,
      h.lines, fun hne => absurd rfl hne, fun _ hu => ?_⟩
    -- Another line follows, so this one has ended with its newline.
    obtain rfl : x = '\n' := by simpa [Text.Finished] using hfinished hu
    rw [Position.after_newline, hpos]
  | cons y rest =>
    have hx : x ≠ '\n' := by
      rintro rfl
      exact hunbroken (by simp)
    refine ⟨h.reading, h.faultless, fun hm => hunbroken (by simp [hm]), fun _ hu => ?_,
      h.parted, h.lines, fun _ => ?_, fun hn => absurd hn (by simp)⟩
    · exact Text.finished_tail (hfinished hu) hx
    · rw [Position.after_char passed hx, hpos]

theorem Follows.receive (h : c.Follows passed) {line : Line} {others : List Line}
    (hr : c.rest = []) (hu : c.upcoming = line :: others) :
    (c.receive line others).Follows passed where
  reading := h.reading
  faultless := h.faultless
  unbroken := h.lines line (by simp [hu])
  finished := fun _ hne => by
    have hparted := h.parted
    rw [hu] at hparted
    exact hparted.1 (.inr hne)
  parted := by
    have hparted := h.parted
    rw [hu] at hparted
    exact hparted.2
  lines := fun other hm => h.lines other (by rw [hu]; simp [show other ∈ others from hm])
  here := fun _ => h.beyond hr (by simp [hu])
  beyond := fun hn => absurd hn (by simp [Cursor.receive, Line.text])

theorem ahead_receive {line : Line} {others : List Line} (hr : c.rest = [])
    (hu : c.upcoming = line :: others) : (c.receive line others).ahead = c.ahead := by
  simp [ahead, receive, hr, hu]

/-- What is shown is the first of the characters ahead, at the position after
the text that was passed. -/
theorem Follows.peek_cons (h : c.Follows passed) {x : Char} {rest : Text}
    (ha : c.ahead = x :: rest) : ∃ c', c.peek = (.ok (some x), c') ∧ c'.Follows passed ∧
      c'.position = Position.after passed ∧ c'.ahead = x :: rest ∧
      c'.advance.Follows (passed ++ [x]) ∧ c'.advance.ahead = rest := by
  have shown (c : Cursor) (h : c.Follows passed) (ha : c.ahead = x :: rest) (hne : c.rest ≠ []) :
      c.peek = (.ok (some x), c) ∧ c.position = Position.after passed ∧
        c.advance.Follows (passed ++ [x]) ∧ c.advance.ahead = rest := by
    obtain ⟨y, others, hr⟩ := List.exists_cons_of_ne_nil hne
    have hy := ahead_advance hr
    rw [ha] at hy
    obtain ⟨rfl, hrest⟩ := List.cons.inj hy
    exact ⟨Cursor.peek_cons h.reading hr, h.position hne, h.advance hr, hrest.symm⟩
  by_cases hr : c.rest = []
  · cases hu : c.upcoming with
    | nil => simp [ahead, hr, hu] at ha
    | cons line others =>
      have hf := h.receive hr hu
      have ha' : (c.receive line others).ahead = x :: rest := by rw [ahead_receive hr hu, ha]
      obtain ⟨hpeek, hshown⟩ := peek_receive h.reading hr hu
      obtain ⟨hpeek', hpos, hadvance, hrest⟩ :=
        shown _ hf ha' (by simp [Cursor.receive, Line.text])
      rw [hpeek'] at hshown
      cases hshown
      exact ⟨_, hpeek, hf, hpos, ha', hadvance, hrest⟩
  · obtain ⟨hpeek, hpos, hadvance, hrest⟩ := shown c h ha hr
    exact ⟨c, hpeek, h, hpos, ha, hadvance, hrest⟩

theorem Follows.peek_nil (h : c.Follows passed) (ha : c.ahead = []) :
    ∃ c', c.peek = (.ok none, c') ∧ c'.phase = .closed := by
  obtain ⟨hr, hu⟩ := List.append_eq_nil_iff.mp ha
  have hnone : c.upcoming = [] := by
    cases hc : c.upcoming with
    | nil => rfl
    | cons line others => simp [hc, Line.text] at hu
  refine ⟨{ c with column := 0, asked := c.asked + 1, phase := .closed }, ?_, rfl⟩
  simp only [Cursor.peek, h.reading, hr, hnone, h.faultless]

end Cursor

namespace Scan

/-- What the automaton makes of a text: the kind of the token, the characters
it keeps for it, and the text that it leaves. -/
def along : Scan → Text → Option (TokenKind × Text × Text)
  | state, [] =>
    match state.onEnd with
    | .ok (some kind) => some (kind, [], [])
    | _ => none
  | state, c :: rest =>
    match state.onChar c with
    | .skip next => along next rest
    | .keep next => (along next rest).map fun (kind, kept, left) => (kind, c :: kept, left)
    | .stop (some kind) => some (kind, [], c :: rest)
    | .take (some kind) => some (kind, [c], rest)
    | .close (some kind) => some (kind, [], rest)
    | .stop none | .take none | .close none | .refuse _ => none

def origin (state : Scan) (start : Position) (passed ahead : Text) : Position :=
  if state = .gap then Position.after (passed ++ ahead.takeWhile Text.isSpace) else start

theorem onChar_space {c : Char} (h : Text.isSpace c = true) : onChar .gap c = .skip .gap := by
  simp only [Text.isSpace, Bool.and_eq_true, bne_iff_ne] at h
  simp [onChar, onFirst, h.1, h.2]

theorem onFirst_gap {c : Char} (h : Text.isSpace c ≠ true) : onFirst c ≠ .skip .gap := by
  by_cases hn : c = '\n'
  · simp [onFirst, hn]
  · have hb : Text.isBlank c ≠ true := fun hb => h (by simp [Text.isSpace, hb, hn])
    simp only [onFirst, if_neg hn, if_neg hb]
    repeat' apply ite_ne
    all_goals simp

theorem onChar_gap {state : Scan} {c : Char} (h : state ≠ .gap ∨ Text.isSpace c ≠ true) :
    onChar state c ≠ .skip .gap := by
  cases state with
  | gap => exact onFirst_gap (h.resolve_left fun hne => hne rfl)
  | _ =>
    simp only [onChar]
    repeat' apply ite_ne
    all_goals simp

theorem onChar_keep_gap (state : Scan) (c : Char) : onChar state c ≠ .keep .gap := by
  cases state <;> simp only [onChar, onFirst] <;> (repeat' apply ite_ne) <;> simp

end Scan

namespace Scanner

inductive Awaits (passed ahead : Text) : Scanner → Prop
  | reading {c : Cursor} (h : c.Follows passed) (ha : c.ahead = ahead) :
      Awaits passed ahead ⟨c, false⟩
  | ended {c : Cursor} (h : c.phase = .closed) (ha : ahead = []) : Awaits passed ahead ⟨c, true⟩

structure Closed (s : Scanner) : Prop where
  phase : s.cursor.phase = .closed
  delivered : s.endPending = false

structure Cut (passed ahead : Text) (kind : TokenKind) (text left : Text) (origin : Position)
    (t : Token) (s : Scanner) : Prop where
  lexeme : t.kind = kind ∧ t.text = text
  position : t.kind ≠ .endOfInput → t.position = origin
  awaits : t.kind ≠ .endOfInput →
    ∃ passed', passed ++ ahead = passed' ++ left ∧ s.Awaits passed' left
  closed : t.kind = .endOfInput → s.Closed

variable {passed ahead : Text} {c c' : Cursor} {state : Scan} {start : Position} {text : Text}

theorem Cut.cons {x : Char} {kind : TokenKind} {left : Text} {origin : Position} {t : Token}
    {s : Scanner} (h : Cut (passed ++ [x]) ahead kind text left origin t s) :
    Cut passed (x :: ahead) kind text left origin t s where
  lexeme := h.lexeme
  position := h.position
  awaits := fun hne => by
    obtain ⟨passed', heq, hs⟩ := h.awaits hne
    exact ⟨passed', by simpa using heq, hs⟩
  closed := h.closed

/-- Before a character that is no blank of the line, the token begins there or
has begun. -/
theorem beginning_origin {x : Char} (hp : c'.position = Position.after passed)
    (hx : state.onChar x ≠ .skip .gap) :
    beginning start state c' = state.origin start passed (x :: ahead) := by
  by_cases hs : state = .gap
  · have hspace : Text.isSpace x ≠ true := fun hspace => hx (hs ▸ Scan.onChar_space hspace)
    simp [beginning, Scan.origin, hs, hp, hspace]
  · simp [beginning, Scan.origin, hs]

theorem origin_next {next : Scan} {x : Char} (hp : c'.position = Position.after passed)
    (hm : state.onChar x = .skip next ∨ state.onChar x = .keep next) :
    next.origin (beginning start state c') (passed ++ [x]) ahead =
      state.origin start passed (x :: ahead) := by
  by_cases hn : next = .gap
  · subst hn
    have hskip := hm.resolve_right (Scan.onChar_keep_gap state x)
    have hs : state = .gap := Decidable.byContradiction fun hs => Scan.onChar_gap (.inl hs) hskip
    have hx : Text.isSpace x = true :=
      Decidable.byContradiction fun hx => Scan.onChar_gap (.inr hx) hskip
    simp [Scan.origin, hs, hx]
  · rw [Scan.origin, if_neg hn]
    apply beginning_origin hp
    rcases hm with hm | hm <;> simp [hm, hn]

/-- Scanning does along a cursor what the automaton does along the text. -/
theorem scan_along (h : c.Follows passed) (ha : c.ahead = ahead) :
    match state.along ahead with
    | none => ∃ failure s, scan start text state c = (.error failure, s)
    | some (kind, kept, left) => ∃ t s, scan start text state c = (.ok t, s) ∧
        Cut passed ahead kind (text ++ kept) left (state.origin start passed ahead) t s := by
  induction ahead generalizing passed c state start text with
  | nil =>
    obtain ⟨c', hpeek, hclosed⟩ := h.peek_nil ha
    rw [scan, hpeek]
    simp only [Scan.along, finish]
    cases hk : state.onEnd with
    | error expected => exact ⟨_, _, rfl⟩
    | ok found =>
      cases found with
      | none => exact ⟨_, _, rfl⟩
      | some kind =>
        refine ⟨_, _, rfl, by simp, fun hne => ?_, fun hne => ⟨passed, rfl, ?_⟩, fun he => ?_⟩
        · have hs : state ≠ .gap := by
            rintro rfl
            cases hk
            exact hne rfl
          simp [beginning, Scan.origin, hs]
        · have hpending : (kind != .endOfInput) = true := by simpa using hne
          rw [hpending]
          exact .ended hclosed rfl
        · exact ⟨hclosed, by simpa using he⟩
  | cons x ahead ih =>
    obtain ⟨c', hpeek, hfollows, hpos, hahead, hadvance, hrest⟩ := h.peek_cons ha
    rw [scan, hpeek]
    simp only [Scan.along]
    have ends {kind : TokenKind} (hm : state.onChar x = .stop (some kind) ∨
        state.onChar x = .take (some kind) ∨ state.onChar x = .close (some kind)) :
        kind ≠ .endOfInput ∧ beginning start state c' = state.origin start passed (x :: ahead) := by
      refine ⟨?_, beginning_origin hpos ?_⟩
      · rintro rfl
        simp [Scan.onChar_ne_endOfInput] at hm
      · rcases hm with hm | hm | hm <;> simp [hm]
    cases hm : state.onChar x with
    | skip next =>
      have hnext := @ih _ _ next (beginning start state c') text hadvance hrest
      simp only
      cases hk : next.along ahead with
      | none => simpa only [hk] using hnext
      | some cut =>
        simp only [hk] at hnext
        obtain ⟨t, s, hscan, hcut⟩ := hnext
        rw [origin_next hpos (.inl hm)] at hcut
        exact ⟨t, s, hscan, hcut.cons⟩
    | keep next =>
      have hnext := @ih _ _ next (beginning start state c') (text ++ [x]) hadvance hrest
      simp only
      cases hk : next.along ahead with
      | none => simpa only [hk, Option.map_none] using hnext
      | some cut =>
        simp only [hk] at hnext
        obtain ⟨t, s, hscan, hcut⟩ := hnext
        rw [origin_next hpos (.inr hm), List.append_assoc] at hcut
        exact ⟨t, s, hscan, hcut.cons⟩
    | stop found =>
      cases found with
      | none => exact ⟨_, _, rfl⟩
      | some kind =>
        obtain ⟨hkind, horigin⟩ := ends (.inl hm)
        exact ⟨_, _, rfl, by simp, fun _ => horigin,
          fun _ => ⟨passed, rfl, .reading hfollows hahead⟩, fun he => absurd he hkind⟩
    | take found =>
      cases found with
      | none => exact ⟨_, _, rfl⟩
      | some kind =>
        obtain ⟨hkind, horigin⟩ := ends (.inr (.inl hm))
        exact ⟨_, _, rfl, by simp, fun _ => horigin,
          fun _ => ⟨passed ++ [x], by simp, .reading hadvance hrest⟩, fun he => absurd he hkind⟩
    | close found =>
      cases found with
      | none => exact ⟨_, _, rfl⟩
      | some kind =>
        obtain ⟨hkind, horigin⟩ := ends (.inr (.inr hm))
        exact ⟨_, _, rfl, by simp, fun _ => horigin,
          fun _ => ⟨passed ++ [x], by simp, .reading hadvance hrest⟩, fun he => absurd he hkind⟩
    | refuse expected => exact ⟨_, _, rfl⟩

variable {s : Scanner}

/-- The next token is the one that the automaton cuts from the text ahead. -/
theorem next_along (h : s.Awaits passed ahead) :
    match Scan.gap.along ahead with
    | none => ∃ failure s', s.next = (.error failure, s')
    | some (kind, text, left) => ∃ t s', s.next = (.ok t, s') ∧ Cut passed ahead kind text left
        (Position.after (passed ++ ahead.takeWhile Text.isSpace)) t s' := by
  cases h with
  | reading h ha =>
    exact @scan_along _ _ _ .gap _ [] h ha
  | ended h ha =>
    subst ha
    exact ⟨_, _, rfl, ⟨rfl, rfl⟩, fun hne => absurd rfl hne, fun hne => absurd rfl hne,
      fun _ => ⟨h, rfl⟩⟩

theorem next_closed (h : s.Closed) : s.next = (.error .inputClosed, s) := by
  have hpeek : s.cursor.peek = (.error .inputClosed, s.cursor) := by
    simp [Cursor.peek, h.phase]
  have hs : (⟨s.cursor, false⟩ : Scanner) = s := by rw [← h.delivered]
  rw [next, h.delivered, if_neg (by decide), scan, hpeek]
  exact congrArg _ hs

theorem answers_closed (h : s.Closed) (n : Nat) :
    answers n s = List.replicate n (.error .inputClosed) := by
  induction n with
  | zero => rfl
  | succ n ih =>
    rw [answers, next_closed h]
    exact congrArg (List.cons _) ih

theorem awaits_ofBytes (bytes : Bytes) :
    (ofInput (.ofBytes bytes)).Awaits [] (Utf8.decode bytes) := by
  refine .reading ⟨rfl, rfl, List.not_mem_nil, fun hne => absurd rfl hne, Input.lines_parted bytes,
    Input.lines_unbroken bytes, fun hne => absurd rfl hne, fun _ _ => rfl⟩ ?_
  exact Input.text_ofBytes bytes

end Scanner

end TinyShell
