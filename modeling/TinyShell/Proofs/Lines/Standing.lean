import TinyShell.Proofs.Grammar.Acceptance
import TinyShell.Proofs.Lines.Extension
import TinyShell.Proofs.Lines.Splitting

/-!
# No token leaves its line

A newline is never passed inside a token. So as long as lines end with
newlines, a token stands on one line, the end of the input comes only after
the last of them, and dropping the rest of a line drops nothing of the next.
-/

set_option autoImplicit false

namespace TinyShell

namespace Scan

theorem onChar_newline (state next : Scan) :
    onChar state '\n' ≠ .skip next ∧ onChar state '\n' ≠ .keep next := by
  have hc : isCommandChar '\n' = false := rfl
  have hd : Char.isDigit '\n' = false := rfl
  cases state <;> simp [onChar, onFirst, hc, hd]

theorem onChar_ne_endOfInput (state : Scan) (x : Char) :
    onChar state x ≠ .stop (some .endOfInput) ∧ onChar state x ≠ .take (some .endOfInput) ∧
      onChar state x ≠ .close (some .endOfInput) := by
  refine ⟨?_, ?_, ?_⟩ <;> cases state <;> simp only [onChar, onFirst] <;>
    (repeat' apply ite_ne) <;> simp

end Scan

def Failure.position? : Failure → Option Position
  | .character p _ _ => some p
  | .grammar p _ _ => some p
  | _ => none

def Failure.FoundOn (line : Nat) (failure : Failure) : Prop :=
  failure.endsInput = true ∨ ∃ p, failure.position? = some p ∧ p.line = line

def FoundOn (line : Nat) : Except Failure Token → Prop
  | .ok t => t.position.line = line
  | .error failure => failure.FoundOn line

def Inner : Except Failure Token → Prop
  | .ok t => t.kind ≠ .endOfInput
  | .error failure => failure.endsInput = false

namespace Cursor

structure SameLine (c c' : Cursor) : Prop where
  upcoming : c'.upcoming = c.upcoming
  lineNumber : c'.lineNumber = c.lineNumber
  fault : c'.fault = c.fault

variable {c c' c'' : Cursor}

theorem SameLine.trans (h : SameLine c c') (h' : SameLine c' c'') : SameLine c c'' :=
  ⟨h'.upcoming.trans h.upcoming, h'.lineNumber.trans h.lineNumber, h'.fault.trans h.fault⟩

theorem SameLine.position (h : SameLine c c') : c'.position.line = c.position.line := by
  simp [Cursor.position, h.lineNumber]

theorem sameLine_advance : SameLine c c.advance := by
  unfold advance
  split <;> exact ⟨rfl, rfl, rfl⟩

theorem peek_sameLine (h : c.rest ≠ [] ∨ c.upcoming = []) {r : Except Failure (Option Char)}
    (hp : c.peek = (r, c')) : SameLine c c' ∧ c'.rest = c.rest := by
  unfold peek at hp
  split at hp <;> obtain ⟨_, rfl⟩ := Prod.mk.inj hp
  case h_4 hr hu _ =>
    rcases h with h | h
    · exact absurd hr h
    · rw [hu] at h
      cases h
  all_goals exact ⟨⟨rfl, rfl, rfl⟩, rfl⟩

theorem peek_cons {x : Char} {rest : Text} (hp : c.phase = .reading) (hr : c.rest = x :: rest) :
    c.peek = (.ok (some x), c) := by
  unfold peek
  split <;> simp_all

structure OnLine (c : Cursor) : Prop where
  reading : c.phase = .reading
  asked : c.asked = c.lineNumber
  begun : 0 < c.lineNumber
  finished : Text.Finished c.rest

theorem OnLine.cons (h : c.OnLine) : ∃ x rest, c.rest = x :: rest :=
  List.exists_cons_of_ne_nil (Text.finished_ne_nil h.finished)

theorem OnLine.peek (h : c.OnLine) {r : Except Failure (Option Char)} (hp : c.peek = (r, c')) :
    ∃ x rest, c.rest = x :: rest ∧ r = .ok (some x) ∧ c' = c := by
  obtain ⟨x, rest, hx⟩ := h.cons
  rw [peek_cons h.reading hx] at hp
  cases hp
  exact ⟨x, rest, hx, rfl, rfl⟩

theorem OnLine.advance {x : Char} {rest : Text} (h : c.OnLine) (hr : c.rest = x :: rest)
    (hf : Text.Finished rest) : c.advance.OnLine := by
  have hadvance : c.advance = { c with rest := rest, column := c.column + 1 } := by
    simp [Cursor.advance, hr]
  rw [hadvance]
  exact ⟨h.reading, h.asked, h.begun, hf⟩

def receive (c : Cursor) (line : Line) (lines : List Line) : Cursor :=
  { c with upcoming := lines, rest := line.text, column := 0,
           lineNumber := c.lineNumber + 1, asked := c.asked + 1 }

theorem peek_receive {line : Line} {lines : List Line} (hp : c.phase = .reading)
    (hr : c.rest = []) (hu : c.upcoming = line :: lines) :
    c.peek = (.ok (some line.first), c.receive line lines) ∧
      (c.receive line lines).peek = (.ok (some line.first), c.receive line lines) := by
  refine ⟨?_, peek_cons hp rfl⟩
  simp [peek, hp, hr, hu, receive]

end Cursor

namespace Scanner

variable {start : Position} {text : Text} {state : Scan} {c : Cursor}
  {r : Except Failure Token} {s s' : Scanner}

/-- A line that has been used up is of no concern to the next token. -/
theorem scan_receive {line : Line} {lines : List Line} (hp : c.phase = .reading)
    (hr : c.rest = []) (hu : c.upcoming = line :: lines) (start' : Position) :
    scan start text .gap c = scan start' text .gap (c.receive line lines) := by
  obtain ⟨hpeek, hpeek'⟩ := Cursor.peek_receive hp hr hu
  rw [scan, scan, hpeek, hpeek']
  simp only [beginning, if_true]

theorem finish_sameLine (hs : start.line = c.position.line)
    (h : finish start text state c = (r, s)) :
    s.cursor = c ∧ FoundOn c.position.line r := by
  unfold finish at h
  split at h <;> cases h
  next => exact ⟨rfl, .inr ⟨_, rfl, rfl⟩⟩
  next => exact ⟨rfl, hs⟩
  next hk => exact absurd hk Scan.onEnd_ne_none

theorem beginning_line (hs : state = .gap ∨ start.line = c.position.line) :
    (beginning start state c).line = c.position.line := by
  unfold beginning
  by_cases hg : state = .gap
  · rw [if_pos hg]
  · rw [if_neg hg]
    exact hs.resolve_left hg

theorem scan_sameLine (h : Text.Finished c.rest ∨ c.upcoming = [])
    (hs : state = .gap ∨ start.line = c.position.line) (hr : scan start text state c = (r, s)) :
    Cursor.SameLine c s.cursor ∧ FoundOn c.position.line r := by
  fun_induction scan start text state c with
  | case1 start text state c failure c' hp =>
    cases hr
    obtain ⟨hsame, _⟩ := Cursor.peek_sameLine (h.imp_left Text.finished_ne_nil) hp
    exact ⟨hsame, .inl (Cursor.endsInput_of_peek hp)⟩
  | case2 start text state c c' hp =>
    obtain ⟨hsame, _⟩ := Cursor.peek_sameLine (h.imp_left Text.finished_ne_nil) hp
    rw [← hsame.position] at hs ⊢
    obtain ⟨hc, hfound⟩ := finish_sameLine (beginning_line hs) hr
    rw [hc]
    exact ⟨hsame, hfound⟩
  | case3 start text state c x c' hp start' next hk ih
  | case4 start text state c x c' hp start' next hk ih =>
    obtain ⟨hsame, hrest⟩ := Cursor.peek_sameLine (h.imp_left Text.finished_ne_nil) hp
    obtain ⟨rest, hx⟩ := Cursor.rest_of_peek_some hp
    have hne : x ≠ '\n' := by
      rintro rfl
      simp [Scan.onChar_newline] at hk
    have hahead : Text.Finished c'.advance.rest ∨ c'.advance.upcoming = [] := by
      rw [Cursor.sameLine_advance.upcoming, hsame.upcoming]
      refine h.imp_left fun hf => ?_
      rw [← hrest, hx] at hf
      simpa [Cursor.advance, hx] using Text.finished_tail hf hne
    rw [← hsame.position] at hs ⊢
    have hline := beginning_line hs
    rw [← Cursor.sameLine_advance.position] at hline ⊢
    obtain ⟨hfinal, hfound⟩ := ih hahead (.inr hline) hr
    exact ⟨(hsame.trans Cursor.sameLine_advance).trans hfinal, hfound⟩
  | case5 start text state c x c' hp start' kind hk =>
    cases hr
    obtain ⟨hsame, _⟩ := Cursor.peek_sameLine (h.imp_left Text.finished_ne_nil) hp
    rw [← hsame.position] at hs ⊢
    exact ⟨hsame, beginning_line hs⟩
  | case6 start text state c x c' hp start' kind hk
  | case7 start text state c x c' hp start' kind hk =>
    cases hr
    obtain ⟨hsame, _⟩ := Cursor.peek_sameLine (h.imp_left Text.finished_ne_nil) hp
    rw [← hsame.position] at hs ⊢
    exact ⟨hsame.trans Cursor.sameLine_advance, beginning_line hs⟩
  | case8 start text state c x c' hp expected hk =>
    cases hr
    obtain ⟨hsame, _⟩ := Cursor.peek_sameLine (h.imp_left Text.finished_ne_nil) hp
    exact ⟨hsame, .inr ⟨_, rfl, hsame.position⟩⟩
  | case9 _ _ _ _ _ _ _ hk | case10 _ _ _ _ _ _ _ hk | case11 _ _ _ _ _ _ _ hk =>
    simp [Scan.onChar_ne_none] at hk

/-- Lines are asked for one by one, the end of the input is not in sight, and
the line, if any of it is left, ends with a newline. -/
structure Whole (s : Scanner) : Prop where
  reading : s.cursor.phase = .reading
  asked : s.cursor.asked = s.cursor.lineNumber
  unended : s.endPending = false
  rest : s.cursor.rest = [] ∨ s.cursor.OnLine

theorem whole_of_onLine (h : c.OnLine) : Whole ⟨c, false⟩ ∧ Whole ⟨c.advance, false⟩ := by
  refine ⟨⟨h.reading, h.asked, rfl, .inr h⟩, ?_⟩
  obtain ⟨x, rest, hx⟩ := h.cons
  cases rest with
  | nil =>
    have hadvance : c.advance = { c with rest := [], column := c.column + 1 } := by
      simp [Cursor.advance, hx]
    rw [hadvance]
    exact ⟨h.reading, h.asked, rfl, .inl rfl⟩
  | cons y rest =>
    have hf : Text.Finished (y :: rest) := by
      have hfinished := h.finished
      rw [hx] at hfinished
      simpa [Text.Finished] using hfinished
    have ha := h.advance hx hf
    exact ⟨ha.reading, ha.asked, rfl, .inr ha⟩

theorem scan_onLine (h : c.OnLine) (hr : scan start text state c = (r, s)) :
    s.Whole ∧ Inner r ∧ 0 < s.cursor.lineNumber := by
  have kinds {state : Scan} {x : Char} {kind : TokenKind} (h : state.onChar x = .stop (some kind) ∨
      state.onChar x = .take (some kind) ∨ state.onChar x = .close (some kind)) :
    kind ≠ .endOfInput := by
    rintro rfl
    simp [Scan.onChar_ne_endOfInput] at h
  have advanced (c : Cursor) (h : c.OnLine) : 0 < c.advance.lineNumber := by
    rw [Cursor.sameLine_advance.lineNumber]
    exact h.begun
  fun_induction scan start text state c with
  | case1 start text state c failure c' hk =>
    obtain ⟨_, _, _, ha, _⟩ := h.peek hk
    cases ha
  | case2 start text state c c' hk =>
    obtain ⟨_, _, _, ha, _⟩ := h.peek hk
    cases ha
  | case3 start text state c x c' hk start' next hm ih
  | case4 start text state c x c' hk start' next hm ih =>
    obtain ⟨y, rest, hx, hy, rfl⟩ := h.peek hk
    cases hy
    have hne : x ≠ '\n' := by
      rintro rfl
      simp [Scan.onChar_newline] at hm
    have hf := h.finished
    rw [hx] at hf
    exact ih (h.advance hx (Text.finished_tail hf hne)) hr
  | case5 start text state c x c' hk start' kind hm =>
    cases hr
    obtain ⟨_, _, _, _, rfl⟩ := h.peek hk
    exact ⟨(whole_of_onLine h).1, kinds (.inl hm), h.begun⟩
  | case6 start text state c x c' hk start' kind hm =>
    cases hr
    obtain ⟨_, _, _, _, rfl⟩ := h.peek hk
    exact ⟨(whole_of_onLine h).2, kinds (.inr (.inl hm)), advanced c' h⟩
  | case7 start text state c x c' hk start' kind hm =>
    cases hr
    obtain ⟨_, _, _, _, rfl⟩ := h.peek hk
    exact ⟨(whole_of_onLine h).2, kinds (.inr (.inr hm)), advanced c' h⟩
  | case8 start text state c x c' hk expected hm =>
    cases hr
    obtain ⟨_, _, _, _, rfl⟩ := h.peek hk
    exact ⟨(whole_of_onLine h).1, rfl, h.begun⟩
  | case9 _ _ _ _ _ _ _ hk | case10 _ _ _ _ _ _ _ hk | case11 _ _ _ _ _ _ _ hk =>
    simp [Scan.onChar_ne_none] at hk

end Scanner

def Cursor.Lined (terminated : Bool) (c : Cursor) : Prop :=
  terminated = true ∨ c.upcoming ≠ []

structure Cursor.Stands (lines : List Line) (terminated : Bool) (c : Cursor) : Prop where
  upcoming : c.upcoming = lines.drop c.lineNumber
  received : c.lineNumber ≤ lines.length
  fault : c.fault = none
  parted : Parted terminated c.upcoming

section

variable {lines : List Line} {terminated : Bool}

namespace Cursor

variable {c c' : Cursor}

theorem Stands.sameLine (h : c.Stands lines terminated) (hs : SameLine c c') :
    c'.Stands lines terminated where
  upcoming := by rw [hs.upcoming, hs.lineNumber, h.upcoming]
  received := by rw [hs.lineNumber]; exact h.received
  fault := by rw [hs.fault, h.fault]
  parted := by rw [hs.upcoming]; exact h.parted

theorem Lined.sameLine (h : c'.Lined terminated) (hs : SameLine c c') : c.Lined terminated := by
  rw [Lined, ← hs.upcoming]
  exact h

theorem Stands.receive {line : Line} {others : List Line} (h : c.Stands lines terminated)
    (hu : c.upcoming = line :: others) : (c.receive line others).Stands lines terminated where
  upcoming := by
    have hd := h.upcoming
    rw [hu] at hd
    have ht := congrArg List.tail hd
    rwa [List.tail_cons, List.tail_drop] at ht
  received := by
    have hd := congrArg List.length h.upcoming
    rw [hu, List.length_cons, List.length_drop] at hd
    simp only [Cursor.receive]
    omega
  fault := h.fault
  parted := by
    have hp := h.parted
    rw [hu] at hp
    exact hp.2

end Cursor

namespace Scanner

structure Stands (lines : List Line) (terminated : Bool) (s : Scanner) : Prop where
  cursor : s.cursor.Stands lines terminated
  whole : s.cursor.Lined terminated → s.Whole

structure Found (lines : List Line) (terminated : Bool) (r : Except Failure Token)
    (s : Scanner) : Prop where
  stands : s.Stands lines terminated
  foundOn : FoundOn s.cursor.position.line r
  inner : s.cursor.Lined terminated → Inner r ∧ 0 < s.cursor.lineNumber

variable {start : Position} {text : Text} {c : Cursor} {r : Except Failure Token}
  {s s' : Scanner}

theorem scan_found (h : c.Stands lines terminated)
    (hw : c.Lined terminated → c.OnLine) (hr : scan start text .gap c = (r, s)) :
    Found lines terminated r s ∧ Cursor.SameLine c s.cursor := by
  have ahead : Text.Finished c.rest ∨ c.upcoming = [] := by
    by_cases hu : c.upcoming = []
    · exact .inr hu
    · exact .inl (hw (.inr hu)).finished
  obtain ⟨hsame, hfound⟩ := scan_sameLine ahead (.inl rfl) hr
  have whole (hl : s.cursor.Lined terminated) :=
    scan_onLine (hw (hl.sameLine hsame)) hr
  exact ⟨⟨⟨h.sameLine hsame, fun hl => (whole hl).1⟩, by rwa [hsame.position],
    fun hl => (whole hl).2⟩, hsame⟩

/-- One token further, unless the lines are used up and the token is the end of
the input. -/
theorem next_stands (h : s.Stands lines terminated) (hn : s.next = (r, s')) :
    (Found lines terminated r s' ∧ (s'.cursor.Lined terminated → s.cursor.Lined terminated)) ∨
    terminated = true ∧ s.cursor.rest = [] ∧ s.cursor.upcoming = [] ∧
      ∃ t, r = .ok t ∧ t.kind = .endOfInput := by
  unfold next at hn
  split at hn
  next hp =>
    have unlined : ¬ s.cursor.Lined terminated := by
      intro hl
      rw [(h.whole hl).unended] at hp
      cases hp
    cases hn
    exact .inl ⟨⟨⟨h.cursor, fun hl => absurd hl unlined⟩, rfl, fun hl => absurd hl unlined⟩, id⟩
  next hp =>
    by_cases hl : s.cursor.Lined terminated
    · have hw := h.whole hl
      rcases hw.rest with hr | hr
      · cases hu : s.cursor.upcoming with
        | nil =>
          have ht : terminated = true := hl.resolve_right (fun hne => hne hu)
          have hpeek : s.cursor.peek = (.ok none,
              { s.cursor with column := 0, asked := s.cursor.asked + 1, phase := .closed }) := by
            simp [Cursor.peek, hw.reading, hr, hu, h.cursor.fault]
          rw [scan, hpeek] at hn
          cases hn
          exact .inr ⟨ht, hr, rfl, _, rfl, rfl⟩
        | cons line others =>
          rw [scan_receive hw.reading hr hu s.cursor.position] at hn
          have hparted := h.cursor.parted
          rw [hu] at hparted
          have onLine (hl' : (s.cursor.receive line others).Lined terminated) :
              (s.cursor.receive line others).OnLine :=
            ⟨hw.reading, by simp only [Cursor.receive, hw.asked], Nat.succ_pos _,
              hparted.1 hl'⟩
          obtain ⟨hfound, _⟩ := scan_found (h.cursor.receive hu) onLine hn
          exact .inl ⟨hfound, fun _ => hl⟩
      · obtain ⟨hfound, _⟩ := scan_found h.cursor (fun _ => hr) hn
        exact .inl ⟨hfound, fun _ => hl⟩
    · obtain ⟨hfound, hsame⟩ := scan_found h.cursor (fun hl' => absurd hl' hl) hn
      exact .inl ⟨hfound, fun hl' => hl'.sameLine hsame⟩

end Scanner

namespace TokenQueue

structure Stands (lines : List Line) (terminated : Bool) (q : TokenQueue) : Prop where
  scanner : q.scanner.Stands lines terminated
  held : ∀ t, q.lookahead = some t → t.position.line = q.scanner.cursor.position.line
  free : q.scanner.cursor.Lined terminated → q.lookahead = none ∧ q.exhausted = false

def metEnd (q : TokenQueue) : Bool :=
  q.exhausted || q.lookahead.any fun t => t.kind == .endOfInput

variable {q q' : TokenQueue} {r : Except Failure Token}

theorem clear_stands (h : q.Stands lines terminated) : q.clear.Stands lines terminated := by
  have cleared : q.scanner.clear.Stands lines terminated :=
    ⟨h.scanner.cursor.sameLine ⟨rfl, rfl, rfl⟩, fun hl =>
      have hw := h.scanner.whole hl
      ⟨hw.reading, hw.asked, hw.unended, .inl rfl⟩⟩
  obtain ⟨scanner, lookahead, exhausted⟩ := q
  cases lookahead with
  | none => exact ⟨cleared, by simp [clear], h.free⟩
  | some t =>
    have unlined : ¬ scanner.cursor.Lined terminated := by
      intro hl
      cases (h.free hl).1
    unfold clear
    by_cases ht : t.kind = .endOfInput
    · simp only [ht, if_true]
      exact ⟨h.scanner, h.held, fun hl => absurd hl unlined⟩
    · simp only [ht, if_false]
      exact ⟨cleared, by simp, fun hl => absurd hl unlined⟩

structure Found (lines : List Line) (terminated : Bool) (r : Except Failure Token)
    (q : TokenQueue) : Prop where
  stands : q.Stands lines terminated
  foundOn : FoundOn q.scanner.cursor.position.line r
  inner : q.scanner.cursor.Lined terminated → Inner r ∧ 0 < q.scanner.cursor.lineNumber

theorem next_stands (h : q.Stands lines terminated) (hn : q.next = (r, q')) :
    Found lines terminated r q' ∨ terminated = true ∧ q.scanner.cursor.rest = [] ∧
      q.scanner.cursor.upcoming = [] ∧ q'.exhausted = true ∧
      ∃ t, r = .ok t ∧ t.kind = .endOfInput := by
  obtain ⟨scanner, lookahead, exhausted⟩ := q
  cases lookahead with
  | some t =>
    have unlined : ¬ scanner.cursor.Lined terminated := by
      intro hl
      cases (h.free hl).1
    cases hn
    exact .inl ⟨⟨h.scanner, by simp [handOut], fun hl => absurd hl unlined⟩, h.held t rfl,
      fun hl => absurd hl unlined⟩
  | none =>
    simp only [next] at hn
    cases hk : scanner.next with
    | mk answer s =>
      simp only [hk] at hn
      rcases Scanner.next_stands h.scanner hk with ⟨hf, hb⟩ | ⟨ht, hr, hu, t, rfl, he⟩
      · cases answer with
        | ok t =>
          cases hn
          refine .inl ⟨⟨hf.stands, by simp [handOut], fun hl => ⟨rfl, ?_⟩⟩, hf.foundOn, hf.inner⟩
          have hinner : t.kind ≠ .endOfInput := (hf.inner hl).1
          have hunexhausted : exhausted = false := (h.free (hb hl)).2
          simp [handOut, hunexhausted, hinner]
        | error failure =>
          cases hn
          exact .inl ⟨⟨hf.stands, by simp, fun hl => h.free (hb hl)⟩, hf.foundOn, hf.inner⟩
      · cases hn
        exact .inr ⟨ht, hr, hu, by simp [handOut, he], t, rfl, he⟩

/-- A token that is put back is dropped with its line, unless it is the end of
the input. -/
theorem clear_putBack_stands {t : Token} (h : Found lines terminated (.ok t) q)
    (hfree : q.lookahead = none) : (q.putBack t).clear.Stands lines terminated := by
  by_cases he : t.kind = .endOfInput
  · have unlined : ¬ q.scanner.cursor.Lined terminated := fun hl => (h.inner hl).1 he
    simp only [clear, putBack, he, if_true]
    refine ⟨h.stands.scanner, ?_, fun hl => absurd hl unlined⟩
    intro u hu
    cases hu
    exact h.foundOn
  · have cleared := clear_stands h.stands
    simp only [clear, hfree] at cleared
    simp only [clear, putBack, he, if_false]
    refine ⟨cleared.scanner, by simp, fun hl => ⟨rfl, ?_⟩⟩
    have hunexhausted : q.exhausted = false := (cleared.free hl).2
    simp [hunexhausted]

end TokenQueue

namespace Reader

variable {reader : Reader} {q q' : TokenQueue} {r : Except Failure (Option Statement)}

/-- After a run the queue stands on the line where a failure was found; or it
has met the end of the input, which terminated lines do not hide in a line. -/
theorem run_stands (h : q.Stands lines terminated) (hr : reader.run q = (r, q')) :
    (q'.clear.Stands lines terminated ∧ (∀ o, r = .ok o → q'.Stands lines terminated) ∧
      ∀ failure, r = .error failure → failure.FoundOn q'.scanner.cursor.position.line ∧
        (q'.scanner.cursor.Lined terminated →
          failure.endsInput = false ∧ 0 < q'.scanner.cursor.lineNumber)) ∨
    terminated = true ∧ q'.metEnd = true := by
  fun_induction run reader q with
  | case1 reader q failure q₁ hn =>
    cases hr
    rcases TokenQueue.next_stands h hn with hf | ⟨_, _, _, _, t, ht, _⟩
    · refine .inl ⟨TokenQueue.clear_stands hf.stands, by simp, ?_⟩
      intro failure hfailure
      cases hfailure
      exact ⟨hf.foundOn, hf.inner⟩
    · cases ht
  | case2 reader q t q₁ hn next hk ih =>
    rcases TokenQueue.next_stands h hn with hf | ⟨_, _, _, _, u, hu, he⟩
    · exact ih hf.stands hr
    · cases hu
      exact absurd hk (Grammar.feed_endOfInput he)
  | case3 reader q t q₁ hn statement hk =>
    cases hr
    rcases TokenQueue.next_stands h hn with hf | ⟨ht, _, _, hx, _⟩
    · exact .inl ⟨TokenQueue.clear_stands hf.stands, fun _ _ => hf.stands, by simp⟩
    · exact .inr ⟨ht, by simp [TokenQueue.metEnd, hx]⟩
  | case4 reader q t q₁ hn expected taken hk =>
    cases hr
    rcases TokenQueue.next_stands h hn with hf | ⟨ht, _, _, hx, u, hu, he⟩
    · have failure : ∀ failure, (Except.error (.grammar t.position t.kind expected) :
          Except Failure (Option Statement)) = .error failure →
          failure.FoundOn q₁.scanner.cursor.position.line ∧
            (q₁.scanner.cursor.Lined terminated →
              failure.endsInput = false ∧ 0 < q₁.scanner.cursor.lineNumber) := by
        intro failure hfailure
        cases hfailure
        exact ⟨.inr ⟨_, rfl, hf.foundOn⟩, fun hl => ⟨rfl, (hf.inner hl).2⟩⟩
      have hfree := TokenQueue.lookahead_next hn
      cases taken with
      | true => exact .inl ⟨TokenQueue.clear_stands hf.stands, by simp, failure⟩
      | false => exact .inl ⟨TokenQueue.clear_putBack_stands hf hfree, by simp, failure⟩
    · cases hu
      cases taken with
      | true => exact .inr ⟨ht, by simp [TokenQueue.metEnd, hx]⟩
      | false => exact .inr ⟨ht, by simp [TokenQueue.metEnd, TokenQueue.putBack, he]⟩

end Reader

end

end TinyShell
