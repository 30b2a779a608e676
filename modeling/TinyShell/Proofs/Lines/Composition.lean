import TinyShell.Proofs.Lines.Standing

/-!
# Reading line after line

Statements are read one after another, and after a failure the rest of its
line is dropped. Of an input whose lines leave nothing open, what comes later
is read as if it stood alone, only further down. A failure disturbs nothing
beyond its own line.
-/

set_option autoImplicit false

namespace TinyShell

namespace TokenQueue

open Reader (movedDown)

def following : Except Failure (Option Statement) × TokenQueue → Option TokenQueue
  | (.ok none, _) => none
  | (.ok (some _), q) => some q
  | (.error failure, q) => if failure.endsInput then none else some q.clear

theorem size_following_lt {q next : TokenQueue} (h : following q.read = some next) :
    next.size < q.size := by
  cases hr : q.read with
  | mk answer q' =>
    rw [hr] at h
    unfold following at h
    split at h
    next => cases h
    next heq =>
      cases heq
      cases h
      exact size_read_lt hr
    next failure _ heq =>
      cases heq
      cases he : failure.endsInput with
      | true => simp [he] at h
      | false =>
        rw [he] at h
        cases h
        exact size_clear_read_lt hr he

def calls (q : TokenQueue) : List (Except Failure (Option Statement) × TokenQueue) :=
  q.read :: match _h : following q.read with
    | none => []
    | some next => calls next
termination_by q.size
decreasing_by exact size_following_lt _h

def answers (q : TokenQueue) : List (Except Failure (Option Statement)) :=
  q.calls.map Prod.fst

variable {n : Nat} {more : List Line} {q q' next : TokenQueue}

theorem calls_none (h : following q.read = none) : q.calls = [q.read] := by
  rw [calls]
  split
  next => rfl
  next hs => rw [h] at hs; cases hs

theorem calls_some (h : following q.read = some next) : q.calls = q.read :: next.calls := by
  rw [calls]
  split
  next hs => rw [h] at hs; cases hs
  next hs => rw [h] at hs; cases hs; rfl

theorem calls_of_read (h : q.read = q'.read) : q.calls = q'.calls := by
  rw [calls, calls, h]

theorem answers_of_read (h : q.read = q'.read) : q.answers = q'.answers := by
  rw [answers, answers, calls_of_read h]

theorem answers_ne_nil (q : TokenQueue) : q.answers ≠ [] := by
  rw [answers, calls]
  simp

theorem following_extend (r : Except Failure (Option Statement)) (q : TokenQueue) :
    following (movedDown n r, q.extend n more) = (following (r, q)).map (extend n more) := by
  cases r with
  | error failure =>
    simp only [following, movedDown, relocated, Failure.endsInput_relocate, clear_extend]
    cases failure.endsInput <;> rfl
  | ok o => cases o <;> rfl

theorem begun_clear (h : q.scanner.cursor.Begun n) : q.clear.scanner.cursor.Begun n := by
  unfold clear
  split
  next => exact h
  next => split <;> exact h

theorem begun_following {r : Except Failure (Option Statement)}
    (h : q.scanner.cursor.Begun n) (hf : following (r, q) = some next) :
    next.scanner.cursor.Begun n := by
  unfold following at hf
  split at hf
  next => cases hf
  next heq =>
    cases heq
    cases hf
    exact h
  next failure _ heq =>
    cases heq
    cases he : failure.endsInput with
    | true => simp [he] at hf
    | false =>
      rw [he] at hf
      cases hf
      exact begun_clear h

theorem answers_extend (h : q.scanner.cursor.Begun n) :
    (q.extend n []).answers = q.answers.map (movedDown n) := by
  induction q using calls.induct with
  | case1 q ih =>
    obtain ⟨hread, hb⟩ : (q.extend n []).read = (movedDown n q.read.1, q.read.2.extend n []) ∧
      q.read.2.scanner.cursor.Begun n := read_extend h (.inl rfl)
    have hfollowing : following (q.extend n []).read = (following q.read).map (extend n []) := by
      rw [hread]
      exact following_extend q.read.1 q.read.2
    cases hn : following q.read with
    | none =>
      rw [hn] at hfollowing
      rw [answers, answers, calls_none hn, calls_none hfollowing, hread]
      rfl
    | some next =>
      have hnext := ih next hn (begun_following hb hn)
      rw [hn] at hfollowing
      simp only [answers] at hnext ⊢
      rw [calls_some hn, calls_some hfollowing, List.map_cons, hnext, hread]
      rfl

structure Rested (q : TokenQueue) : Prop where
  whole : q.scanner.Whole
  fault : q.scanner.cursor.fault = none
  rest : q.scanner.cursor.rest = []
  lookahead : q.lookahead = none
  unexhausted : q.exhausted = false

def receive (q : TokenQueue) (line : Line) (lines : List Line) : TokenQueue :=
  { q with scanner := { q.scanner with cursor := q.scanner.cursor.receive line lines } }

theorem read_receive {line : Line} {lines : List Line} (h : q.Rested)
    (hu : q.scanner.cursor.upcoming = line :: lines) : q.read = (q.receive line lines).read := by
  have hscan : q.scanner.next = (q.receive line lines).scanner.next := by
    have hreceived : (q.receive line lines).scanner.endPending = false := h.whole.unended
    simp only [Scanner.next, h.whole.unended, hreceived, Bool.false_eq_true, if_false]
    exact Scanner.scan_receive h.whole.reading h.rest hu _
  have hnext : q.next = (q.receive line lines).next := by
    have hfree : (q.receive line lines).lookahead = none := h.lookahead
    simp only [next, h.lookahead, hfree, hscan]
    rfl
  have hreceived : (q.receive line lines).exhausted = false := h.unexhausted
  simp only [read, h.unexhausted, hreceived, Bool.false_eq_true, if_false]
  rw [Reader.run, Reader.run, hnext]

theorem answers_end (h : q.Rested) (hu : q.scanner.cursor.upcoming = []) :
    q.answers = [.ok none] := by
  have hpeek : q.scanner.cursor.peek = (.ok none, { q.scanner.cursor with
      column := 0, asked := q.scanner.cursor.asked + 1, phase := .closed }) := by
    simp [Cursor.peek, h.whole.reading, h.rest, hu, h.fault]
  have hscan : ∃ t s, q.scanner.next = (.ok t, s) ∧ t.kind = .endOfInput := by
    simp only [Scanner.next, h.whole.unended, Bool.false_eq_true, if_false]
    rw [Scanner.scan, hpeek]
    exact ⟨_, _, rfl, rfl⟩
  obtain ⟨t, s, hs, ht⟩ := hscan
  have hnext : q.next = (.ok t, { q with scanner := s }.handOut t) := by
    simp only [next, h.lookahead, hs]
  have hread : q.read = (.ok none, { q with scanner := s }.handOut t) := by
    rw [read, if_neg (by simp [h.unexhausted]), Grammar.run_next hnext]
    simp [Reader.feed, ht]
  rw [answers, calls_none (by rw [hread]; rfl), hread]
  rfl

/-- From the beginning of a line on, what is read is what the lines to come are
read as by themselves. -/
theorem answers_rested (h : q.Rested) : q.answers =
    (ofInput ⟨q.scanner.cursor.upcoming, none⟩).answers.map
      (movedDown q.scanner.cursor.lineNumber) := by
  have alone : (ofInput ⟨q.scanner.cursor.upcoming, none⟩).Rested :=
    ⟨⟨rfl, rfl, rfl, .inl rfl⟩, rfl, rfl, rfl, rfl⟩
  cases hu : q.scanner.cursor.upcoming with
  | nil =>
    rw [hu] at alone
    rw [answers_end h hu, answers_end alone rfl]
    rfl
  | cons line lines =>
    rw [hu] at alone
    have received : q.receive line lines =
        ((ofInput ⟨line :: lines, none⟩).receive line lines).extend
          q.scanner.cursor.lineNumber [] := by
      obtain ⟨⟨⟨upcoming, fault, rest, column, lineNumber, asked, phase⟩, endPending⟩,
        lookahead, exhausted⟩ := q
      obtain ⟨⟨hreading, hasked, hunended, _⟩, hfault, _, hlookahead, hunexhausted⟩ := h
      simp only at hreading hasked hunended hfault hlookahead hunexhausted
      subst hreading hasked hunended hfault hlookahead hunexhausted
      simp [receive, Cursor.receive, ofInput, Scanner.ofInput, Cursor.ofInput, extend,
        Scanner.extend, Cursor.extend, Nat.add_comm]
    rw [answers_of_read (read_receive h hu), answers_of_read (read_receive alone rfl), received]
    exact answers_extend (.inr (Nat.succ_pos _))

variable {lines : List Line}

theorem begun_zero (c : Cursor) : c.Begun 0 := .inl rfl

/-- A call that finds nothing has passed over the rest of the lines; more lines
are read as if it had not been made. -/
theorem run_none_extend (h : q.Stands lines true) (hr : Reader.idle.run q = (.ok none, q')) :
    ∃ q₀ : TokenQueue, q₀.Stands lines true ∧ q₀.scanner.cursor.rest = [] ∧
      q₀.scanner.cursor.upcoming = [] ∧
      Reader.idle.run (q.extend 0 more) = Reader.idle.run (q₀.extend 0 more) := by
  obtain ⟨w, t, last, hw, ha, hf⟩ := Grammar.after_of_run hr
  have settled : (∀ u ∈ w, Grammar.leads u = true) ∧ t.kind = .endOfInput := by
    rcases Grammar.accepted_of_after ha hf with ⟨hl, hk, _⟩ | ⟨_, _, _, _, _, ho, _⟩
    · exact ⟨hl, hk⟩
    · cases ho
  obtain ⟨hl, hk⟩ := settled
  clear ha hf hr
  induction w generalizing q with
  | nil =>
    cases hw with
    | cons hn _ =>
      rcases next_stands h hn with hf | ⟨_, hrest, hu, _⟩
      · exact absurd hk (hf.inner (.inl rfl)).1
      · exact ⟨q, h, hrest, hu, rfl⟩
  | cons u w ih =>
    cases hw with
    | cons hn hs =>
      have hu : Grammar.leads u = true := hl u (by simp)
      rcases next_stands h hn with hf | ⟨_, _, _, _, v, hv, he⟩
      · obtain ⟨q₀, hq, hrest, hup, hrun⟩ :=
          ih hf.stands hs (fun v hv => hl v (by simp [hv]))
        refine ⟨q₀, hq, hrest, hup, ?_⟩
        rw [← hrun]
        have hreading := (hf.stands.scanner.whole (.inl rfl)).reading
        obtain ⟨hnext, _⟩ := next_extend (begun_zero _) hn (.inr hreading)
        have hmoved : Grammar.leads (u.relocate (Position.down 0)) = true := hu
        rw [Grammar.run_next hnext, Grammar.feed_idle_leads hmoved]
      · cases hv
        simp [Grammar.leads, he] at hu

theorem stands_following {terminated : Bool} {r : Except Failure (Option Statement)}
    (hc : q.clear.Stands lines terminated) (hs : ∀ o, r = .ok o → q.Stands lines terminated)
    (hf : following (r, q) = some next) : next.Stands lines terminated := by
  unfold following at hf
  split at hf
  next => cases hf
  next heq =>
    cases heq
    cases hf
    exact hs _ rfl
  next failure _ heq =>
    cases heq
    cases he : failure.endsInput with
    | true => simp [he] at hf
    | false =>
      rw [he] at hf
      cases hf
      exact hc

theorem phase_clear (q : TokenQueue) :
    q.clear.scanner.cursor.phase = q.scanner.cursor.phase := by
  unfold clear
  split
  next => rfl
  next => split <;> rfl

/-- With its lines used up, a queue that is extended stands before the first
line that was added. -/
theorem rested_extend (h : q.Stands lines true) (hr : q.scanner.cursor.rest = [])
    (hu : q.scanner.cursor.upcoming = []) :
    (q.extend 0 more).Rested ∧ (q.extend 0 more).scanner.cursor.upcoming = more ∧
      (q.extend 0 more).scanner.cursor.lineNumber = lines.length := by
  have hw := h.scanner.whole (.inl rfl)
  obtain ⟨hfree, hunexhausted⟩ := h.free (.inl rfl)
  refine ⟨⟨⟨hw.reading, hw.asked, hw.unended, .inl hr⟩, h.scanner.cursor.fault, hr, ?_,
    hunexhausted⟩, ?_, ?_⟩
  · simp only [extend, hfree, Option.map_none]
  · simp only [extend, Scanner.extend, Cursor.extend, hu, List.nil_append]
  · have hdrop := h.scanner.cursor.upcoming
    rw [hu] at hdrop
    have hle := List.drop_eq_nil_iff.mp hdrop.symm
    exact Nat.le_antisymm h.scanner.cursor.received hle

theorem movedDown_zero (r : Except Failure (Option Statement)) : movedDown 0 r = r := by
  refine relocated_id (fun o => ?_) r
  cases o with
  | none => rfl
  | some s => exact congrArg some s.relocate_id

/-- What is read from terminated lines that leave nothing open, and then from
more lines. -/
theorem answers_stands (h : q.Stands lines true)
    (hopen : ∀ call ∈ q.calls, call.1 ≠ .ok none → call.2.metEnd = false) :
    (q.extend 0 more).answers = q.answers.dropLast ++
        (ofInput ⟨more, none⟩).answers.map (movedDown lines.length) ∧
      q.answers.getLast? = some (.ok none) := by
  induction q using calls.induct with
  | case1 q ih =>
    have hunexhausted := (h.free (.inl rfl)).2
    have hread : q.read = Reader.idle.run q := by simp [read, hunexhausted]
    by_cases hnone : q.read.1 = .ok none
    · have hend : q.read = (.ok none, q.read.2) := Prod.ext hnone rfl
      have hanswers : q.answers = [.ok none] := by
        rw [answers, calls_none (by rw [hend]; rfl), hend]
        rfl
      rw [hread] at hend
      obtain ⟨q₀, hq, hrest, hup, hrun⟩ := @run_none_extend more _ _ _ h hend
      obtain ⟨hrested, hmore, hlength⟩ := @rested_extend more _ _ hq hrest hup
      have hsame : (q.extend 0 more).read = (q₀.extend 0 more).read := by
        have hextended : (q.extend 0 more).exhausted = false := hunexhausted
        simp only [read, hextended, hrested.unexhausted, Bool.false_eq_true, if_false, hrun]
      rw [hanswers, answers_of_read hsame, answers_rested hrested, hmore, hlength]
      exact ⟨rfl, rfl⟩
    · have hmet := hopen q.read (by rw [calls]; simp) hnone
      have hrun : Reader.idle.run q = (q.read.1, q.read.2) := hread.symm
      rcases Reader.run_stands h hrun with ⟨hc, hs, hfailure⟩ | ⟨_, hm⟩
      · have hreading : q.read.2.scanner.cursor.phase = .reading := by
          rw [← phase_clear]
          exact (hc.scanner.whole (.inl rfl)).reading
        obtain ⟨hextend, _⟩ := @read_extend 0 more q (begun_zero _) (.inr hreading)
        obtain ⟨next, hnext⟩ : ∃ next, following (q.read.1, q.read.2) = some next := by
          cases hr : q.read.1 with
          | ok o =>
            cases o with
            | none => exact absurd hr hnone
            | some s => exact ⟨_, rfl⟩
          | error failure =>
            have hends := ((hfailure failure hr).2 (.inl rfl)).1
            exact ⟨q.read.2.clear, by simp [following, hends]⟩
        have hmoved : following (q.extend 0 more).read = some (next.extend 0 more) := by
          rw [hextend, following_extend, hnext]
          rfl
        have hcalls : q.calls = q.read :: next.calls := calls_some hnext
        obtain ⟨hlater, hlast⟩ := ih next hnext (stands_following hc hs hnext)
          (fun call hm => hopen call (by rw [hcalls]; simp [hm]))
        have hanswers : q.answers = q.read.1 :: next.answers := by
          rw [answers, hcalls]
          rfl
        have hne := next.answers_ne_nil
        constructor
        · rw [answers, calls_some hmoved, List.map_cons, hextend, movedDown_zero, hanswers,
            List.dropLast_cons_of_ne_nil hne, List.cons_append, ← hlater]
          rfl
        · rw [hanswers, List.getLast?_cons_of_ne_nil hne, hlast]
      · rw [hmet] at hm
        cases hm

theorem sameLine_clear (q : TokenQueue) :
    Cursor.SameLine q.scanner.cursor q.clear.scanner.cursor := by
  unfold clear
  split
  next => exact ⟨rfl, rfl, rfl⟩
  next => split <;> exact ⟨rfl, rfl, rfl⟩

/-- With a line still to come, dropping the rest of a line leads to its
beginning. -/
theorem rested_clear {terminated : Bool} (h : q.clear.Stands lines terminated)
    (hl : q.clear.scanner.cursor.Lined terminated) : q.clear.Rested := by
  obtain ⟨hfree, hunexhausted⟩ := h.free hl
  refine ⟨h.scanner.whole hl, h.scanner.cursor.fault, ?_, hfree, hunexhausted⟩
  unfold clear at hfree ⊢
  split
  next => rfl
  next ht =>
    split
    next he => simp [ht, he, putBack] at hfree
    next => rfl

/-- After a failure, the lines below it are read as they are by themselves. -/
theorem answers_after_failure (h : q.Stands lines false)
    {before after : List (Except Failure (Option Statement))} {failure : Failure}
    (ha : q.answers = before ++ .error failure :: after) (he : failure.endsInput = false) :
    ∃ p, failure.position? = some p ∧ (lines.drop p.line ≠ [] →
      after = (ofInput ⟨lines.drop p.line, none⟩).answers.map (movedDown p.line)) := by
  induction q using calls.induct generalizing before with
  | case1 q ih =>
    by_cases hx : q.exhausted = true
    · have hread : q.read = (.ok none, q) := by simp [read, hx]
      rw [answers, calls_none (by rw [hread]; rfl), hread] at ha
      cases before with
      | nil => cases ha
      | cons x before => simp at ha
    have hrun : Reader.idle.run q = (q.read.1, q.read.2) := by simp [read, hx]
    rcases Reader.run_stands h hrun with ⟨hc, hs, hfailure⟩ | ⟨ht, _⟩
    · cases before with
      | nil =>
        have hanswers : q.answers = q.read.1 :: q.calls.tail.map Prod.fst := by
          rw [answers, calls]
          rfl
        rw [hanswers] at ha
        obtain ⟨hr, hafter⟩ := List.cons.inj ha
        obtain ⟨hfound, hlined⟩ := hfailure failure hr
        obtain ⟨p, hp, hline⟩ := hfound.resolve_left (by simp [he])
        refine ⟨p, hp, fun hne => ?_⟩
        have hsame := q.read.2.sameLine_clear
        have hup := hc.scanner.cursor.upcoming
        rw [hsame.lineNumber] at hup
        have hdrop : lines.drop q.read.2.scanner.cursor.lineNumber ≠ [] := by
          intro hnil
          have hle := List.drop_eq_nil_iff.mp hnil
          have hge : q.read.2.scanner.cursor.lineNumber ≤ p.line := by
            rw [hline]
            exact Nat.le_max_left _ _
          exact hne (List.drop_eq_nil_iff.mpr (Nat.le_trans hle hge))
        have hl : q.read.2.clear.scanner.cursor.Lined false := .inr (hup ▸ hdrop)
        have hpos := (hlined (hl.sameLine hsame)).2
        have hnumber : p.line = q.read.2.scanner.cursor.lineNumber := by
          rw [hline]
          exact Nat.max_eq_left hpos
        have hnext : following q.read = some q.read.2.clear := by
          have hpair : q.read = (.error failure, q.read.2) := Prod.ext hr rfl
          rw [hpair]
          simp [following, he]
        rw [calls_some hnext] at hafter
        rw [hnumber, ← hup, ← hsame.lineNumber, ← hafter]
        exact answers_rested (rested_clear hc hl)
      | cons x before =>
        cases hn : following q.read with
        | none =>
          rw [answers, calls_none hn] at ha
          simp at ha
        | some next =>
          rw [answers, calls_some hn] at ha
          exact ih next hn (stands_following hc hs hn) (List.cons.inj ha).2
    · cases ht

theorem ofInput_stands {terminated : Bool} (h : Parted terminated lines) :
    (ofInput ⟨lines, none⟩).Stands lines terminated where
  scanner := ⟨⟨rfl, Nat.zero_le _, rfl, h⟩, fun _ => ⟨rfl, rfl, rfl, .inl rfl⟩⟩
  held := by simp [ofInput]
  free := fun _ => ⟨rfl, rfl⟩

/-- Bytes that are empty or end with a newline, and of which reading meets the
end only where nothing is left to read, are read first, and the bytes after
them as if they stood alone, so many lines further down. Wherever reading
fails, the lines below are read as if they stood alone, too. -/
theorem answers_append (b₁ b₂ : Bytes)
    (hb : b₁ = [] ∨ b₁.getLast? = some Input.newlineByte)
    (hopen : ∀ call ∈ (ofInput (.ofBytes b₁)).calls,
      call.1 ≠ .ok none → call.2.metEnd = false) :
    ((ofInput (.ofBytes (b₁ ++ b₂))).answers = (ofInput (.ofBytes b₁)).answers.dropLast ++
        (ofInput (.ofBytes b₂)).answers.map (movedDown (b₁.count Input.newlineByte)) ∧
      (ofInput (.ofBytes b₁)).answers.getLast? = some (.ok none)) ∧
    ∀ (b : Bytes) (before after : List (Except Failure (Option Statement))) (failure : Failure),
      (ofInput (.ofBytes b)).answers = before ++ .error failure :: after →
      failure.endsInput = false → ∃ p, failure.position? = some p ∧
        ((Input.ofBytes b).lines.drop p.line ≠ [] →
          after = (ofInput ⟨(Input.ofBytes b).lines.drop p.line, none⟩).answers.map
            (movedDown p.line)) := by
  constructor
  · have hstands := ofInput_stands (Input.lines_terminated hb)
    have hextend : ofInput (.ofBytes (b₁ ++ b₂)) =
        (ofInput (.ofBytes b₁)).extend 0 (Input.ofBytes b₂).lines := by
      have hlines := Input.lines_append hb b₂
      simp only [ofInput, Scanner.ofInput, Cursor.ofInput, extend, Scanner.extend,
        Cursor.extend, hlines]
      rfl
    rw [hextend, ← Input.length_lines hb]
    exact answers_stands hstands hopen
  · intro b before after failure ha he
    exact answers_after_failure (ofInput_stands (Input.lines_parted b)) ha he

theorem nothing_open_quote : ∀ call ∈ (ofInput (.ofBytes [97, 34, 10, 98, 10])).calls,
    call.1 ≠ .ok none → call.2.metEnd = false := by
  have settled : ∀ call ∈ (ofInput (.ofBytes [97, 34, 10, 98, 10])).calls,
      call.1.toOption = some none ∨ call.2.metEnd = false := by
    decide +kernel
  intro call hm hne
  rcases settled call hm with h | h
  · cases hr : call.1 with
    | error failure =>
      rw [hr] at h
      cases h
    | ok o =>
      rw [hr] at h
      cases h
      exact absurd hr hne
  · exact h

theorem answers_append_quote :
    (∀ call ∈ (ofInput (.ofBytes [97, 34, 10, 98, 10])).calls,
      call.1 ≠ .ok none → call.2.metEnd = false) ∧
    (ofInput (.ofBytes ([97, 34, 10, 98, 10] ++ [41, 10, 99]))).answers.map Except.toOption =
      [none, some (some (.atom (.word ⟨.command, ['b'], ⟨2, 1⟩⟩))), none,
        some (some (.atom (.word ⟨.command, ['c'], ⟨4, 1⟩⟩))), some none] := by
  refine ⟨nothing_open_quote, ?_⟩
  rw [(answers_append _ [41, 10, 99] (.inr rfl) nothing_open_quote).1.1]
  decide +kernel

end TokenQueue

end TinyShell
