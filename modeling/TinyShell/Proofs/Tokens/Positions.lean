import TinyShell.Proofs.Lines.Demand

/-!
# Positions that are reported

What is found on a line is reported where it stands, and so each report lies
behind those before it. What is found at the end of the input is reported where
the last line begins: by then the line has been dropped to look for another
one. This is the only report that can lie before another one.
-/

set_option autoImplicit false

namespace TinyShell

namespace Position

def ofEnd (lines : List Line) : Position := ⟨max lines.length 1, 1⟩

variable {p q r : Position}

theorem Precedes.asymm (h : p.Precedes q) : ¬ q.Precedes p := by
  unfold Precedes at *
  omega

theorem not_precedes_self (p : Position) : ¬ p.Precedes p := by
  unfold Precedes
  omega

theorem Precedes.trans_not (h : p.Precedes q) (h' : ¬ r.Precedes q) : p.Precedes r := by
  unfold Precedes at *
  omega

theorem not_precedes_trans (h : ¬ q.Precedes p) (h' : ¬ r.Precedes q) : ¬ r.Precedes p := by
  unfold Precedes at *
  omega

end Position

namespace Cursor

def front (c : Cursor) : Position :=
  if c.rest = [] then ⟨c.lineNumber + 1, 1⟩ else ⟨c.lineNumber, c.column + 1⟩

variable {lines : List Line} {c c' : Cursor} {r : Except Failure (Option Char)}

theorem front_peek (h : c.peek = (r, c')) : c'.front = c.front := by
  unfold peek at h
  split at h <;> cases h
  next => rfl
  next => rfl
  next hr => simp [front, hr]
  next hr _ => simp [front, hr, Line.text]
  next hr _ _ => simp [front, hr]
  next hr _ _ => simp [front, hr]

theorem front_advance (hr : c.rest ≠ []) : c.front.Precedes c.advance.front := by
  obtain ⟨x, rest, hx⟩ := List.exists_cons_of_ne_nil hr
  have hadvance : c.advance = { c with rest := rest, column := c.column + 1 } := by
    simp [Cursor.advance, hx]
  rw [hadvance, front, front, if_neg hr]
  by_cases hn : rest = []
  · rw [if_pos hn]
    exact .inl (Nat.lt_succ_self _)
  · rw [if_neg hn]
    exact .inr ⟨rfl, Nat.lt_succ_self _⟩

theorem front_advance_of_peek {x : Char} (h : c.peek = (.ok (some x), c')) :
    c'.front.Precedes c'.advance.front := by
  obtain ⟨rest, hrest⟩ := rest_of_peek_some h
  exact front_advance (by simp [hrest])

theorem front_clear (hr : c.rest ≠ []) : c.front.Precedes c.clear.front := by
  rw [front, if_neg hr]
  exact .inl (Nat.lt_succ_self _)

theorem Supplied.position_front (h : c.Supplied lines) (hr : c.rest ≠ []) :
    c.position = c.front := by
  rw [position, front, if_neg hr, Nat.max_eq_left (h.held hr).1]

theorem Supplied.position_spent (h : c.Supplied lines) (hp : c.phase ≠ .reading) :
    c.position = Position.ofEnd lines := by
  obtain ⟨_, hu, hcolumn⟩ := h.spent hp
  have hlength : lines.length ≤ c.lineNumber := by
    rw [h.upcoming] at hu
    exact List.drop_eq_nil_iff.mp hu
  rw [position, Position.ofEnd, hcolumn, Nat.le_antisymm h.received hlength]

end Cursor

def reported : Except Failure Token → Option Position
  | .ok t => some t.position
  | .error failure => failure.position?

def AtEnd : Except Failure Token → Prop
  | .ok t => t.kind = .endOfInput
  | .error failure =>
    failure.endsInput = true ∨ ∃ p expected, failure = .character p none expected

namespace Scanner

def resume (s : Scanner) : Except Failure Token → Scanner
  | .error (.character _ _ _) => s.clear
  | _ => s

def recovering : Nat → Scanner → List (Except Failure Token)
  | 0, _ => []
  | n+1, s => s.next.1 :: recovering n (s.next.2.resume s.next.1)

/-- What an answer reports: nothing, or a position between the front before it
and the front after it; or the end of the input, with nothing to follow. -/
inductive Reports (lines : List Line) (low : Position) (r : Except Failure Token) (s : Scanner) :
    Prop
  | nothing (h : reported r = none)
  | within {p : Position} (h : reported r = some p) (hlow : ¬ p.Precedes low)
      (hnext : p.Precedes (s.resume r).cursor.front)
  | atEnd (h : reported r = some (Position.ofEnd lines)) (hend : AtEnd r)
      (hclosed : (s.resume r).Closed)

variable {lines : List Line} {low start : Position} {text : Text} {state : Scan} {c : Cursor}
  {r : Except Failure Token} {s s' : Scanner}

theorem finish_reports (h : c.Supplied lines) (hp : c.phase = .closed)
    (hs : state ≠ .gap → start.Precedes c.front ∧ ¬ start.Precedes low)
    (hr : finish (beginning start state c) text state c = (r, s)) : Reports lines low r s := by
  have hend : c.position = Position.ofEnd lines := h.position_spent (by simp [hp])
  unfold finish at hr
  split at hr
  next expected he =>
    cases hr
    exact .atEnd (congrArg some hend) (.inr ⟨_, _, rfl⟩) ⟨hp, rfl⟩
  next kind he =>
    cases hr
    by_cases hg : state = .gap
    · subst hg
      cases he
      exact .atEnd (congrArg some hend) rfl ⟨hp, rfl⟩
    · obtain ⟨hfront, hlow⟩ := hs hg
      have hstart : beginning start state c = start := if_neg hg
      rw [hstart]
      exact .within rfl hlow hfront
  next hk => exact absurd hk Scan.onEnd_ne_none

/-- The place where a token begins, when one more of its characters is shown. -/
theorem beginning_between {c' : Cursor} {x : Char} (h : c.Supplied lines)
    (hlow : ¬ c.front.Precedes low)
    (hs : state ≠ .gap → start.Precedes c.front ∧ ¬ start.Precedes low)
    (hp : c.peek = (.ok (some x), c')) :
    (state ≠ .gap → (beginning start state c').Precedes c'.front) ∧
      (beginning start state c').Precedes c'.advance.front ∧
      ¬ (beginning start state c').Precedes low := by
  obtain ⟨rest, hrest⟩ := Cursor.rest_of_peek_some hp
  have hne : c'.rest ≠ [] := by simp [hrest]
  have hadvance := Cursor.front_advance hne
  have hfront := Cursor.front_peek hp
  unfold beginning
  by_cases hg : state = .gap
  · rw [if_pos hg, (h.peek hp).position_front hne]
    refine ⟨fun hn => absurd hg hn, hadvance, ?_⟩
    rwa [hfront]
  · obtain ⟨hstart, hstart'⟩ := hs hg
    rw [← hfront] at hstart
    rw [if_neg hg]
    exact ⟨fun _ => hstart, hstart.trans hadvance, hstart'⟩

theorem scan_reports (h : c.Supplied lines) (hlow : ¬ c.front.Precedes low)
    (hs : state ≠ .gap → start.Precedes c.front ∧ ¬ start.Precedes low)
    (hr : scan start text state c = (r, s)) : Reports lines low r s := by
  fun_induction scan start text state c with
  | case1 start text state c failure c' hp =>
    cases hr
    have hends := Cursor.endsInput_of_peek hp
    cases failure <;> first | exact .nothing rfl | cases hends
  | case2 start text state c c' hp =>
    refine finish_reports (h.peek hp) (Cursor.phase_of_peek_none hp).1 (fun hg => ?_) hr
    rw [Cursor.front_peek hp]
    exact hs hg
  | case3 start text state c x c' hp start' next hm ih
  | case4 start text state c x c' hp start' next hm ih =>
    obtain ⟨_, hnext, hstart⟩ := beginning_between h hlow hs hp
    have hadvance : ¬ c'.advance.front.Precedes low :=
      Position.not_precedes_trans hstart hnext.asymm
    exact ih (h.peek hp).advance hadvance (fun _ => ⟨hnext, hstart⟩) hr
  | case5 start text state c x c' hp start' kind hm =>
    cases hr
    obtain ⟨hfront, _, hstart⟩ := beginning_between h hlow hs hp
    have hg : state ≠ .gap := by
      rintro rfl
      exact Scan.onChar_gap_ne_stop _ _ hm
    exact .within rfl hstart (hfront hg)
  | case6 start text state c x c' hp start' kind hm
  | case7 start text state c x c' hp start' kind hm =>
    cases hr
    obtain ⟨_, hnext, hstart⟩ := beginning_between h hlow hs hp
    exact .within rfl hstart hnext
  | case8 start text state c x c' hp expected hm =>
    cases hr
    obtain ⟨rest, hrest⟩ := Cursor.rest_of_peek_some hp
    have hne : c'.rest ≠ [] := by simp [hrest]
    have hfront : c'.position = c.front := by
      rw [(h.peek hp).position_front hne, Cursor.front_peek hp]
    refine .within rfl ?_ ?_
    · rwa [hfront]
    · rw [hfront, ← Cursor.front_peek hp]
      exact Cursor.front_clear hne
  | case9 _ _ _ _ _ _ _ hk | case10 _ _ _ _ _ _ _ hk | case11 _ _ _ _ _ _ _ hk =>
    simp [Scan.onChar_ne_none] at hk

theorem front_resume (s : Scanner) (r : Except Failure Token) :
    ¬ (s.resume r).cursor.front.Precedes s.cursor.front := by
  unfold resume
  split
  next =>
    by_cases hr : s.cursor.rest = []
    · have hclear : s.clear.cursor.front = s.cursor.front := by
        simp [clear, Cursor.clear, Cursor.front, hr]
      rw [hclear]
      exact Position.not_precedes_self _
    · exact (Cursor.front_clear hr).asymm
  next => exact Position.not_precedes_self _

theorem front_scan (hr : scan start text state c = (r, s)) :
    ¬ s.cursor.front.Precedes c.front := by
  fun_induction scan start text state c with
  | case1 _ _ _ _ _ _ hp | case5 _ _ _ _ _ _ hp | case8 _ _ _ _ _ _ hp =>
    cases hr
    rw [← Cursor.front_peek hp]
    exact Position.not_precedes_self _
  | case2 _ _ _ _ _ hp =>
    rw [finish_cursor hr, ← Cursor.front_peek hp]
    exact Position.not_precedes_self _
  | case3 _ _ _ _ _ _ hp _ _ _ ih | case4 _ _ _ _ _ _ hp _ _ _ ih =>
    rw [← Cursor.front_peek hp]
    exact Position.not_precedes_trans (Cursor.front_advance_of_peek hp).asymm (ih hr)
  | case6 _ _ _ _ _ _ hp | case7 _ _ _ _ _ _ hp =>
    cases hr
    rw [← Cursor.front_peek hp]
    exact (Cursor.front_advance_of_peek hp).asymm
  | case9 _ _ _ _ _ _ _ hk | case10 _ _ _ _ _ _ _ hk | case11 _ _ _ _ _ _ _ hk =>
    simp [Scan.onChar_ne_none] at hk

theorem closed_of_scan (hr : scan start text state c = (r, s)) (hp : s.endPending = true) :
    s.cursor.phase = .closed := by
  fun_induction scan start text state c with
  | case1 | case5 | case6 | case7 | case8 =>
    cases hr
    cases hp
  | case2 _ _ _ _ _ hpeek =>
    rw [finish_cursor hr]
    exact (Cursor.phase_of_peek_none hpeek).1
  | case3 _ _ _ _ _ _ _ _ _ _ ih | case4 _ _ _ _ _ _ _ _ _ _ ih => exact ih hr
  | case9 _ _ _ _ _ _ _ hk | case10 _ _ _ _ _ _ _ hk | case11 _ _ _ _ _ _ _ hk =>
    simp [Scan.onChar_ne_none] at hk

/-- Between two calls: the lines have come one by one, and the end of the input
only waits to be delivered when it has been seen. -/
structure Sound (lines : List Line) (s : Scanner) : Prop where
  supplied : s.cursor.Supplied lines
  pending : s.endPending = true → s.cursor.phase = .closed

theorem sound_resume (h : s.Sound lines) (r : Except Failure Token) : (s.resume r).Sound lines := by
  unfold resume
  split
  next => exact ⟨h.supplied.clear, h.pending⟩
  next => exact h

theorem next_reports (h : s.Sound lines) :
    Reports lines s.cursor.front s.next.1 s.next.2 ∧ (s.next.2.resume s.next.1).Sound lines ∧
      ¬ (s.next.2.resume s.next.1).cursor.front.Precedes s.cursor.front := by
  cases hn : s.next with
  | mk r s' =>
    have hsupplied := next_supplied h.supplied hn
    unfold next at hn
    split at hn
    next hp =>
      cases hn
      have hphase := h.pending hp
      have hend := h.supplied.position_spent (by simp [hphase])
      refine ⟨.atEnd (congrArg some hend) rfl ⟨hphase, rfl⟩, ⟨h.supplied, nofun⟩, ?_⟩
      exact Position.not_precedes_self _
    next =>
      have hreports : Reports lines s.cursor.front r s' :=
        scan_reports h.supplied (Position.not_precedes_self _) (fun hg => absurd rfl hg) hn
      refine ⟨hreports, sound_resume ⟨hsupplied, closed_of_scan hn⟩ r, ?_⟩
      exact Position.not_precedes_trans (front_scan hn) (front_resume s' r)

theorem recovering_closed (h : s.Closed) (n : Nat) :
    recovering n s = List.replicate n (.error .inputClosed) := by
  induction n with
  | zero => rfl
  | succ n ih =>
    rw [recovering, next_closed h]
    exact congrArg (List.cons _) ih

def positions (answers : List (Except Failure Token)) : List Position :=
  answers.filterMap reported

/-- Answers of which the first ones report positions in order, not before the
given one, and the last ones nothing but the end of the input. -/
structure Ordered (lines : List Line) (low : Position)
    (before after : List (Except Failure Token)) : Prop where
  low : ∀ p ∈ positions before, ¬ p.Precedes low
  increasing : (positions before).Pairwise Position.Precedes
  ends : ∀ answer ∈ after, AtEnd answer
  once : positions after = [] ∨ positions after = [Position.ofEnd lines]

variable {before after : List (Except Failure Token)} {next : Position}

theorem Ordered.cons (h : Ordered lines next before after) (hle : ¬ next.Precedes low)
    (hr : ∀ p, reported r = some p → ¬ p.Precedes low ∧ p.Precedes next) :
    Ordered lines low (r :: before) after := by
  have hlow : ∀ p ∈ positions before, ¬ p.Precedes low := fun p hp =>
    Position.not_precedes_trans hle (h.low p hp)
  cases hp : reported r with
  | none =>
    have hpositions : positions (r :: before) = positions before := List.filterMap_cons_none hp
    refine ⟨?_, ?_, h.ends, h.once⟩ <;> rw [hpositions]
    · exact hlow
    · exact h.increasing
  | some p =>
    obtain ⟨hfrom, hto⟩ := hr p hp
    have hpositions : positions (r :: before) = p :: positions before :=
      List.filterMap_cons_some hp
    refine ⟨?_, ?_, h.ends, h.once⟩ <;> rw [hpositions]
    · exact List.forall_mem_cons.mpr ⟨hfrom, hlow⟩
    · exact List.pairwise_cons.mpr ⟨fun q hq => hto.trans_not (h.low q hq), h.increasing⟩

theorem recovering_ordered (h : s.Sound lines) (n : Nat) : ∃ before after,
    recovering n s = before ++ after ∧ Ordered lines s.cursor.front before after := by
  induction n generalizing s with
  | zero => exact ⟨[], [], rfl, nofun, .nil, nofun, .inl rfl⟩
  | succ n ih =>
    obtain ⟨hreports, hsound, hle⟩ := next_reports h
    rw [recovering]
    cases hreports with
    | nothing hr =>
      obtain ⟨before, after, heq, hordered⟩ := ih hsound
      exact ⟨s.next.1 :: before, after, by rw [heq]; rfl, hordered.cons hle (by simp [hr])⟩
    | @within p hr hlow hnext =>
      obtain ⟨before, after, heq, hordered⟩ := ih hsound
      refine ⟨s.next.1 :: before, after, by rw [heq]; rfl, hordered.cons hle fun q hq => ?_⟩
      rw [hr] at hq
      cases hq
      exact ⟨hlow, hnext⟩
    -- Only refusals follow the end, and they report nothing.
    | atEnd hr hend hclosed =>
      refine ⟨[], _, rfl, nofun, .nil, ?_, .inr ?_⟩
      · rw [recovering_closed hclosed, List.forall_mem_cons]
        refine ⟨hend, fun answer hm => ?_⟩
        rw [List.eq_of_mem_replicate hm]
        exact .inl rfl
      · rw [recovering_closed hclosed, positions, List.filterMap_cons_some hr]
        simp [List.filterMap_replicate, reported, Failure.position?]

/-- Whatever lines are read, and wherever the reader may fail: what is reported
before the end of the input is reported in order, each position behind the last.
The end of the input, or what is found there, is reported at most once, and at
the beginning of the last line. So positions go back exactly if that is reported
and something else was found behind the beginning of the last line. -/
theorem positions_in_order (input : Input) (n : Nat) : ∃ before after,
    recovering n (ofInput input) = before ++ after ∧
    (positions before).Pairwise Position.Precedes ∧ (∀ answer ∈ after, AtEnd answer) ∧
    (positions after = [] ∨ positions after = [Position.ofEnd input.lines]) ∧
    ((positions (recovering n (ofInput input))).Pairwise (fun p q => ¬ q.Precedes p) ↔
      positions after = [] ∨
        ∀ p ∈ positions before, ¬ (Position.ofEnd input.lines).Precedes p) := by
  have hsound : (ofInput input).Sound input.lines := ⟨Cursor.supplied_ofInput input, nofun⟩
  obtain ⟨before, after, heq, hordered⟩ := recovering_ordered hsound n
  refine ⟨before, after, heq, hordered.increasing, hordered.ends, hordered.once, ?_⟩
  have hbefore : (positions before).Pairwise fun p q => ¬ q.Precedes p :=
    hordered.increasing.imp Position.Precedes.asymm
  rw [heq, positions, List.filterMap_append]
  change (positions before ++ positions after).Pairwise _ ↔ _
  rw [List.pairwise_append]
  rcases hordered.once with h | h <;> rw [h]
  · simp [hbefore]
  · simp [hbefore]

/-- The text `echo a "b`, which ends inside a string: what is wrong with it is
reported before the word `a`. -/
theorem positions_back_at_end :
    positions (recovering 3 (ofInput (.ofBytes [101, 99, 104, 111, 32, 97, 32, 34, 98]))) =
      [⟨1, 1⟩, ⟨1, 6⟩, ⟨1, 1⟩] ∧
    ¬ (positions (recovering 3 (ofInput
      (.ofBytes [101, 99, 104, 111, 32, 97, 32, 34, 98])))).Pairwise fun p q => ¬ q.Precedes p := by
  have hpositions : positions (recovering 3 (ofInput
      (.ofBytes [101, 99, 104, 111, 32, 97, 32, 34, 98]))) = [⟨1, 1⟩, ⟨1, 6⟩, ⟨1, 1⟩] := by
    decide +kernel
  refine ⟨hpositions, ?_⟩
  rw [hpositions]
  simp [Position.Precedes]

end Scanner

end TinyShell
