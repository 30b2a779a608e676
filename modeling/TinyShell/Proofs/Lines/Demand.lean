import TinyShell.Proofs.Grammar.Rejection
import TinyShell.Shell.Session

/-!
# No line is asked for ahead

A line is asked for when a character of it is wanted, and the newline that ends
a statement is the last character of its line. So when the statement is there,
the line it ends on has been used up, nothing is held back, and no later line
has been asked for.
-/

set_option autoImplicit false

namespace TinyShell

namespace Text

variable {front text : Text}

theorem Finished.suffix (h : Finished (front ++ text)) (hne : text ≠ []) : Finished text := by
  rw [Finished, List.getLast?_append, List.getLast?_eq_some_getLast hne] at h
  rw [Finished, List.getLast?_eq_some_getLast hne]
  exact h

theorem Unbroken.newline_last {rest : Text} (h : Unbroken (front ++ '\n' :: rest)) :
    rest = [] := by
  cases rest with
  | nil => rfl
  | cons c rest =>
    refine absurd ?_ h
    rw [List.dropLast_append_of_ne_nil (by simp)]
    simp

end Text

theorem parted_left {lines more : List Line} (h : Parted false (lines ++ more)) :
    Parted false lines := by
  induction lines with
  | nil => trivial
  | cons line lines ih =>
    refine ⟨fun hne => h.1 (.inr ?_), ih h.2⟩
    have hlines : lines ≠ [] := hne.resolve_left nofun
    simp [hlines]

theorem parted_getElem {lines : List Line} {line : Line} {i : Nat} (h : Parted false lines)
    (hi : lines[i]? = some line) (hlater : lines.drop (i + 1) ≠ []) : line.text.Finished := by
  induction lines generalizing i with
  | nil => cases hi
  | cons first lines ih =>
    cases i with
    | zero =>
      cases hi
      exact h.1 (.inr hlater)
    | succ i => exact ih h.2 hi hlater

namespace Input

theorem lines_failing (bytes : Bytes) (limit : Nat) (reason : Text) :
    (failing bytes limit reason).lines <+: (ofBytes (bytes.take limit)).lines := by
  simp only [failing, ofBytes, decodeLines_append]
  exact List.prefix_append _ _

theorem delivered_parted (bytes : Bytes) (fault : Option (Nat × Text)) :
    Parted false (delivered bytes fault).lines := by
  cases fault with
  | none => exact lines_parted bytes
  | some fault =>
    obtain ⟨more, hmore⟩ := lines_failing bytes fault.1 fault.2
    have hparted := lines_parted (bytes.take fault.1)
    rw [← hmore] at hparted
    exact parted_left hparted

theorem delivered_unbroken (bytes : Bytes) (fault : Option (Nat × Text)) :
    ∀ line ∈ (delivered bytes fault).lines, line.text.Unbroken := by
  cases fault with
  | none => exact lines_unbroken bytes
  | some fault =>
    intro line hm
    exact lines_unbroken _ line ((lines_failing bytes fault.1 fault.2).mem hm)

end Input

namespace Cursor

structure Supplied (lines : List Line) (c : Cursor) : Prop where
  upcoming : c.upcoming = lines.drop c.lineNumber
  received : c.lineNumber ≤ lines.length
  asked : c.phase = .reading → c.asked = c.lineNumber
  held : c.rest ≠ [] → 0 < c.lineNumber ∧
    ∃ line, lines[c.lineNumber - 1]? = some line ∧ c.rest <:+ line.text
  spent : c.phase ≠ .reading → c.rest = [] ∧ c.upcoming = [] ∧ c.column = 0

variable {lines : List Line} {c c' : Cursor} {r : Except Failure (Option Char)}

theorem supplied_ofInput (input : Input) : (ofInput input).Supplied input.lines :=
  ⟨rfl, Nat.zero_le _, fun _ => rfl, fun h => absurd rfl h, fun h => absurd rfl h⟩

theorem Supplied.receive {line : Line} {others : List Line} (h : c.Supplied lines)
    (hp : c.phase = .reading) (hu : c.upcoming = line :: others) :
    (c.receive line others).Supplied lines := by
  have hd := h.upcoming
  rw [hu] at hd
  have hline : lines[c.lineNumber]? = some line := by
    rw [← List.head?_drop, ← hd]
    rfl
  refine ⟨?_, ?_, fun _ => ?_, fun _ => ⟨Nat.succ_pos _, line, hline, List.suffix_refl _⟩,
    fun hne => absurd hp hne⟩
  · have ht := congrArg List.tail hd
    rwa [List.tail_cons, List.tail_drop] at ht
  · have hlength := congrArg List.length hd
    rw [List.length_cons, List.length_drop] at hlength
    simp only [Cursor.receive]
    omega
  · simp only [Cursor.receive, h.asked hp]

theorem Supplied.peek (h : c.Supplied lines) (hp : c.peek = (r, c')) : c'.Supplied lines := by
  unfold Cursor.peek at hp
  split at hp <;> cases hp
  next => exact h
  next => exact h
  next hphase hr =>
    have hspent := h.spent (by simp [hphase])
    exact ⟨h.upcoming, h.received, nofun, h.held, fun _ => hspent⟩
  next hphase _ hu => exact h.receive hphase hu
  next hr hu _ => exact ⟨h.upcoming, h.received, nofun, h.held, fun _ => ⟨hr, hu, rfl⟩⟩
  next hr hu _ => exact ⟨h.upcoming, h.received, nofun, h.held, fun _ => ⟨hr, hu, rfl⟩⟩

theorem Supplied.advance (h : c.Supplied lines) : c.advance.Supplied lines := by
  unfold Cursor.advance
  split
  next => exact h
  next x rest hr =>
    obtain ⟨hpos, line, hline, hsuffix⟩ := h.held (by simp [hr])
    refine ⟨h.upcoming, h.received, h.asked, fun _ => ⟨hpos, line, hline, ?_⟩, fun hne => ?_⟩
    · rw [hr] at hsuffix
      exact (List.suffix_cons x rest).trans hsuffix
    · rw [(h.spent hne).1] at hr
      cases hr

theorem Supplied.clear (h : c.Supplied lines) : c.clear.Supplied lines where
  upcoming := h.upcoming
  received := h.received
  asked := h.asked
  held := fun hne => absurd rfl hne
  spent := fun hne => ⟨rfl, (h.spent hne).2.1, rfl⟩

theorem Supplied.reading (h : c.Supplied lines) (hr : c.rest ≠ []) : c.phase = .reading :=
  Decidable.byContradiction fun hp => hr (h.spent hp).1

theorem Supplied.finished (h : c.Supplied lines) (hparted : Parted false lines)
    (hr : c.rest ≠ []) (hu : c.upcoming ≠ []) : c.rest.Finished := by
  obtain ⟨hpos, line, hline, front, hfront⟩ := h.held hr
  have hlater : lines.drop (c.lineNumber - 1 + 1) ≠ [] := by
    rw [Nat.sub_add_cancel hpos, ← h.upcoming]
    exact hu
  have hfinished := parted_getElem hparted hline hlater
  rw [← hfront] at hfinished
  exact hfinished.suffix hr

/-- Before a newline of a line there is nothing left but this newline. -/
theorem Supplied.newline_last (h : c.Supplied lines)
    (hunbroken : ∀ line ∈ lines, line.text.Unbroken) {rest : Text} (hr : c.rest = '\n' :: rest) :
    rest = [] ∧ ∃ line, lines[c.lineNumber - 1]? = some line ∧ line.text.Finished := by
  obtain ⟨_, line, hline, front, hfront⟩ := h.held (by simp [hr])
  have htext := hunbroken line (List.mem_of_getElem? hline)
  rw [← hfront, hr] at htext
  obtain rfl := htext.newline_last
  refine ⟨rfl, line, hline, ?_⟩
  rw [← hfront, hr]
  simp [Text.Finished]

end Cursor

namespace Scan

variable {state : Scan} {x : Char}

theorem onChar_newline_token : onChar state x ≠ .stop (some .newline) ∧
    onChar state x ≠ .close (some .newline) ∧
    (x ≠ '\n' → onChar state x ≠ .take (some .newline)) := by
  refine ⟨?_, ?_, fun hx => ?_⟩ <;> cases state <;>
    simp only [onChar, onFirst, *, if_false] <;> (repeat' apply ite_ne) <;> simp

theorem onEnd_ne_newline : state.onEnd ≠ .ok (some .newline) := by
  cases state <;> simp [onEnd]

end Scan

namespace Scanner

variable {lines : List Line} {start : Position} {text : Text} {state : Scan} {c : Cursor}
  {r : Except Failure Token} {s s' : Scanner} {t : Token}

theorem scan_supplied (h : c.Supplied lines) (hr : scan start text state c = (r, s)) :
    s.cursor.Supplied lines := by
  fun_induction scan start text state c with
  | case1 _ _ _ _ _ _ hp | case5 _ _ _ _ _ _ hp | case8 _ _ _ _ _ _ hp =>
    cases hr
    exact h.peek hp
  | case2 _ _ _ _ _ hp =>
    rw [finish_cursor hr]
    exact h.peek hp
  | case3 _ _ _ _ _ _ hp _ _ _ ih | case4 _ _ _ _ _ _ hp _ _ _ ih =>
    exact ih (h.peek hp).advance hr
  | case6 _ _ _ _ _ _ hp | case7 _ _ _ _ _ _ hp =>
    cases hr
    exact (h.peek hp).advance
  | case9 _ _ _ _ _ _ _ hk | case10 _ _ _ _ _ _ _ hk | case11 _ _ _ _ _ _ _ hk =>
    simp [Scan.onChar_ne_none] at hk

theorem next_supplied (h : s.cursor.Supplied lines) (hn : s.next = (r, s')) :
    s'.cursor.Supplied lines := by
  unfold next at hn
  split at hn
  next =>
    cases hn
    exact h
  next => exact scan_supplied h hn

structure EndsLine (lines : List Line) (t : Token) (s : Scanner) : Prop where
  reading : s.cursor.phase = .reading
  rest : s.cursor.rest = []
  unended : s.endPending = false
  line : t.position.line = s.cursor.lineNumber
  last : ∃ line, lines[t.position.line - 1]? = some line ∧ line.text.Finished

theorem beginning_received {c' : Cursor} {x : Char} (h : c.Supplied lines)
    (hs : state ≠ .gap → start.line = c.lineNumber ∧ (c.rest = [] → c.upcoming = []))
    (hp : c.peek = (.ok (some x), c')) :
    (beginning start state c').line = c'.lineNumber := by
  unfold beginning
  by_cases hg : state = .gap
  · obtain ⟨rest, hrest⟩ := Cursor.rest_of_peek_some hp
    have hpos := ((h.peek hp).held (by simp [hrest])).1
    rw [if_pos hg]
    exact Nat.max_eq_left hpos
  · obtain ⟨hline, hlast⟩ := hs hg
    have hheld : c.rest ≠ [] ∨ c.upcoming = [] := by
      by_cases hr : c.rest = []
      · exact .inr (hlast hr)
      · exact .inl hr
    rw [if_neg hg, hline, (Cursor.peek_sameLine hheld hp).1.lineNumber]

theorem scan_newline (hparted : Parted false lines)
    (hunbroken : ∀ line ∈ lines, line.text.Unbroken) (h : c.Supplied lines)
    (hs : state ≠ .gap → start.line = c.lineNumber ∧ (c.rest = [] → c.upcoming = []))
    (hr : scan start text state c = (.ok t, s)) (hk : t.kind = .newline) : EndsLine lines t s := by
  fun_induction scan start text state c with
  | case1 => cases hr
  | case2 =>
    unfold finish at hr
    split at hr
    next => cases hr
    next kind he =>
      cases hr
      obtain rfl : kind = .newline := hk
      exact absurd he Scan.onEnd_ne_newline
    next => cases hr
  | case3 start text state c x c' hp start' next hm ih
  | case4 start text state c x c' hp start' next hm ih =>
    have hsupplied := h.peek hp
    obtain ⟨rest, hrest⟩ := Cursor.rest_of_peek_some hp
    have hne : x ≠ '\n' := by
      rintro rfl
      simp [Scan.onChar_newline] at hm
    refine ih hsupplied.advance (fun _ => ⟨?_, fun hnil => ?_⟩) hr
    · rw [Cursor.sameLine_advance.lineNumber]
      exact beginning_received h hs hp
    -- No newline has been passed, so if the line is used up it was the last one.
    · rw [Cursor.sameLine_advance.upcoming]
      refine Decidable.byContradiction fun hu => ?_
      have hfinished := hsupplied.finished hparted (by simp [hrest]) hu
      rw [hrest] at hfinished
      have hlast : c'.advance.rest = rest := by simp [Cursor.advance, hrest]
      exact Text.finished_ne_nil (Text.finished_tail hfinished hne) (hlast.symm.trans hnil)
  | case5 start text state c x c' hp start' kind hm =>
    cases hr
    obtain rfl : kind = .newline := hk
    exact absurd hm Scan.onChar_newline_token.1
  | case6 start text state c x c' hp start' kind hm =>
    cases hr
    obtain rfl : kind = .newline := hk
    have hsupplied := h.peek hp
    obtain ⟨rest, hrest⟩ := Cursor.rest_of_peek_some hp
    obtain rfl : x = '\n' :=
      Decidable.byContradiction fun hx => Scan.onChar_newline_token.2.2 hx hm
    obtain ⟨rfl, hlast⟩ := hsupplied.newline_last hunbroken hrest
    have hline : start'.line = c'.lineNumber := beginning_received h hs hp
    refine ⟨?_, by simp [Cursor.advance, hrest], rfl, ?_, by rwa [hline]⟩
    · rw [Cursor.phase_advance]
      exact hsupplied.reading (by simp [hrest])
    · rw [Cursor.sameLine_advance.lineNumber]
      exact hline
  | case7 start text state c x c' hp start' kind hm =>
    cases hr
    obtain rfl : kind = .newline := hk
    exact absurd hm Scan.onChar_newline_token.2.1
  | case8 => cases hr
  | case9 _ _ _ _ _ _ _ hk | case10 _ _ _ _ _ _ _ hk | case11 _ _ _ _ _ _ _ hk =>
    simp [Scan.onChar_ne_none] at hk

theorem next_newline (hparted : Parted false lines)
    (hunbroken : ∀ line ∈ lines, line.text.Unbroken) (h : s.cursor.Supplied lines)
    (hn : s.next = (.ok t, s')) (hk : t.kind = .newline) : EndsLine lines t s' := by
  unfold next at hn
  split at hn
  next =>
    cases hn
    cases hk
  next => exact scan_newline hparted hunbroken h (fun hg => absurd rfl hg) hn hk

end Scanner

namespace Reader

variable {level : Level} {outer : List Level} {t : Token} {expected : Text}

theorem onFollow_untaken {s : Statement} (h : onFollow s level outer t = .reject expected false) :
    t.kind ≠ .newline := by
  intro hk
  rw [Grammar.onFollow_scope (.inl (.inr hk))] at h
  cases outer <;> simp [onScope, hk] at h

/-- A newline may stand where a group can close, so it is not put back. -/
theorem feed_untaken {reader : Reader} (h : reader.feed t = .reject expected false) :
    t.kind ≠ .newline := by
  cases reader with
  | idle => cases feed_idle_taken h
  | inside stage level outer =>
    have chain {level : Level} (h : onChain level outer t = .reject expected false) :
        t.kind ≠ .newline := by
      cases onChain_taken h
    cases stage with
    | chain spread =>
      simp only [feed, onStage] at h
      split at h
      next => cases h
      next => exact chain h
    | operand => cases onOperand_taken h
    | words head latest =>
      simp only [feed, onStage] at h
      split at h
      next => cases h
      next => exact onFollow_untaken h
    | target arrow left =>
      simp only [feed, onStage] at h
      split at h <;> cases h
    | follow s => exact onFollow_untaken h
    | separated s =>
      simp only [feed, onStage] at h
      split at h
      next => cases h
      next => cases h
      next => exact chain h
    | groupSeparated s =>
      simp only [feed, onStage] at h
      split at h
      next => cases h
      next => cases h
      next => exact chain h

end Reader

theorem Grammar.derives_last {ts : List Token} {s : Statement} (h : Derives .statement ts s) :
    ∃ init last, ts = init ++ [last] ∧ IsEnd last := by
  generalize hp : Phrase.statement = p at h
  induction h with
  | @ended last ts s _ he => exact ⟨ts, last, rfl, he⟩
  | @closed semi last ts s _ _ he => exact ⟨ts ++ [semi], last, by simp, he⟩
  | @sequence semi ts us l r _ _ _ _ ih =>
    obtain ⟨init, last, rfl, he⟩ := ih rfl
    exact ⟨ts ++ semi :: init, last, by simp, he⟩
  | _ => cases hp

namespace TokenQueue

variable {lines : List Line} {q q' : TokenQueue} {t : Token} {ts : List Token}

structure Supplied (lines : List Line) (q : TokenQueue) : Prop where
  cursor : q.scanner.cursor.Supplied lines
  held : ∀ t, q.lookahead = some t → t.kind ≠ .newline

theorem supplied_ofInput (input : Input) : (ofInput input).Supplied input.lines :=
  ⟨Cursor.supplied_ofInput input, fun _ ht => by cases ht⟩

theorem next_supplied {r : Except Failure Token} (h : q.Supplied lines) (hn : q.next = (r, q')) :
    q'.Supplied lines ∧ q'.lookahead = none := by
  cases hl : q.lookahead with
  | some t =>
    rw [next_held hl] at hn
    cases hn
    exact ⟨⟨h.cursor, nofun⟩, rfl⟩
  | none =>
    obtain ⟨hs, hfree, _⟩ := next_scanned hl hn
    refine ⟨⟨Scanner.next_supplied h.cursor hs, fun t ht => ?_⟩, hfree⟩
    rw [hfree] at ht
    cases ht

theorem supplied_invariant : Invariant (Supplied lines) where
  next := fun h hn => (next_supplied h hn).1
  putBack := by
    intro reader q q' t expected h hn hf
    refine ⟨(next_supplied h hn).1.cursor, fun u hu => ?_⟩
    cases hu
    exact Reader.feed_untaken hf
  clear := by
    intro q h
    unfold clear
    split
    next hl => exact ⟨h.cursor.clear, h.held⟩
    next t hl =>
      split
      next =>
        refine ⟨h.cursor, fun u hu => ?_⟩
        cases hu
        exact h.held t hl
      next => exact ⟨h.cursor.clear, nofun⟩

theorem hands_supplied (h : q.Supplied lines) (hh : q.Hands ts q') : q'.Supplied lines := by
  induction hh with
  | nil => exact h
  | cons hn _ ih => exact ih (next_supplied h hn).1

theorem hands_endOfInput (hh : q.Hands (ts ++ [t]) q') (hk : t.kind = .endOfInput) :
    q'.exhausted = true := by
  obtain ⟨q₁, _, hlast⟩ := Grammar.hands_split hh
  cases hlast with
  | cons hn hs =>
    cases hs
    unfold next at hn
    split at hn
    next =>
      cases hn
      simp [handOut, hk]
    next =>
      split at hn <;> cases hn
      simp [handOut, hk]

theorem hands_newline (hparted : Parted false lines)
    (hunbroken : ∀ line ∈ lines, line.text.Unbroken) (h : q.Supplied lines)
    (hh : q.Hands (ts ++ [t]) q') (hk : t.kind = .newline) :
    Scanner.EndsLine lines t q'.scanner := by
  obtain ⟨q₁, hfront, hlast⟩ := Grammar.hands_split hh
  cases hlast with
  | cons hn hs =>
    cases hs
    have hsupplied := hands_supplied h hfront
    cases hl : q₁.lookahead with
    | some u =>
      rw [next_held hl] at hn
      cases hn
      exact absurd hk (hsupplied.held _ hl)
    | none =>
      exact Scanner.next_newline hparted hunbroken hsupplied.cursor (next_scanned hl hn).1 hk

/-- Whatever was called before, and wherever the reader may fail: a statement
ends with a newline or with the input. If it is a newline, then its line is the
last one that has been asked for and received, though the statement may go over
many lines; nothing of it is left, and no token is held back. So a session
prompts for the lines up to this one, takes them from its source, and leaves
the rest of the lines there while the statement is evaluated. -/
theorem no_line_ahead {bytes : Bytes} {fault : Option (Nat × Text)} {s : Statement}
    (hl : (ofInput (.delivered bytes fault)).Later q) (h : q.read = (.ok (some s), q')) :
    ∃ ts t, q.Hands (ts ++ [t]) q' ∧ Grammar.IsEnd t ∧
      (t.kind = .newline →
        (∃ line, (Input.delivered bytes fault).lines[t.position.line - 1]? = some line ∧
          line.text.Finished) ∧
        q'.asked = t.position.line ∧ q'.received = t.position.line ∧
        q'.lookahead = none ∧ q'.scanner.endPending = false ∧ q'.scanner.cursor.rest = [] ∧
        q'.scanner.cursor.upcoming = (Input.delivered bytes fault).lines.drop t.position.line ∧
        ∀ (session : Session) (source : Source) (state : ShellState),
          session.fetch source q q' state = source.receive (t.position.line - q.received)
            (session.ask (t.position.line - q.asked) state)) := by
  have hsupplied : q.Supplied (Input.delivered bytes fault).lines :=
    supplied_invariant.later (supplied_ofInput _) hl
  obtain ⟨ts, t, last, hh, ha, hf⟩ := Grammar.after_of_run (run_of_read h (by simp))
  refine ⟨ts, t, hh, ?_, fun hk => ?_⟩
  · rcases Grammar.accepted_of_after ha hf with ⟨_, _, ho⟩ | ⟨lead, body, _, heq, _, _, hd⟩
    · cases ho
    · obtain ⟨init, final, rfl, he⟩ := Grammar.derives_last hd
      rw [← List.append_assoc] at heq
      obtain ⟨_, ht⟩ := List.append_inj' heq rfl
      cases ht
      exact he
  · have hends := hands_newline (Input.delivered_parted bytes fault)
      (Input.delivered_unbroken bytes fault) hsupplied hh hk
    have hcursor := (hands_supplied hsupplied hh).cursor
    have hreceived : q'.received = t.position.line := hends.line.symm
    have hasked : q'.asked = t.position.line := (hcursor.asked hends.reading).trans hreceived
    refine ⟨hends.last, hasked, hreceived, hands_free hh, hends.unended, hends.rest, ?_,
      fun _ _ _ => ?_⟩
    · rw [hcursor.upcoming, hends.line]
    · rw [Session.fetch, hasked, hreceived]

/-- The lines `(a`, `b) &&`, `c` and `d`: the first statement goes over three of
them, and the fourth has not been asked for. -/
theorem no_line_ahead_of_four : ∃ (s : Statement) (q' : TokenQueue),
    (ofInput (.delivered [40, 97, 10, 98, 41, 32, 38, 38, 10, 99, 10, 100, 10] none)).read =
      (.ok (some s), q') ∧
    q'.asked = 3 ∧ q'.lookahead = none ∧ q'.scanner.cursor.rest = [] ∧
    q'.scanner.cursor.upcoming = [⟨'d', ['\n']⟩] := by
  have hfirst (answer : Except Failure (Option Statement) × TokenQueue) (h : (ofInput
      (.delivered [40, 97, 10, 98, 41, 32, 38, 38, 10, 99, 10, 100, 10] none)).read = answer) :
      ((answer.1.toOption.bind id).isSome && (answer.2.asked == 3 && !answer.2.exhausted)) =
        true := by
    subst h
    decide +kernel
  cases hread : (ofInput
      (.delivered [40, 97, 10, 98, 41, 32, 38, 38, 10, 99, 10, 100, 10] none)).read with
  | mk answer q' =>
    have hanswer := hfirst _ hread
    rcases answer with failure | _ | s
    · cases hanswer
    · cases hanswer
    obtain ⟨hasked, hopen⟩ : q'.asked = 3 ∧ q'.exhausted = false := by
      simpa using ((Bool.and_eq_true _ _).mp hanswer).2
    obtain ⟨_, t, hh, hend, hnewline⟩ := no_line_ahead .now hread
    have hk : t.kind = .newline := by
      rcases hend with hk | hk
      · exact hk
      · rw [hands_endOfInput hh hk] at hopen
        cases hopen
    obtain ⟨_, hline, _, hfree, _, hrest, hupcoming, _⟩ := hnewline hk
    rw [← hline, hasked] at hupcoming
    exact ⟨s, q', rfl, hasked, hfree, hrest, hupcoming⟩

end TokenQueue

end TinyShell
