import TinyShell.Machine.Console
import TinyShell.Proofs.Grammar.Acceptance
import TinyShell.Proofs.Status.Independence
import TinyShell.Proofs.Status.Programs
import TinyShell.Shell.Session

/-!
# Statuses of sessions

A statement that was read remembers nothing yet, so its result and its status
agree, and so do those of a session: a session ends with a code that fits.
-/

set_option autoImplicit false

namespace TinyShell

theorem Expression.remembered_word (t : Token) : (Expression.word t).Remembered := by
  unfold word
  split <;> simp [Remembered]

/-- The atoms of a statement of the grammar are words and commands that
remember nothing. -/
theorem Grammar.atoms_of_derives {P : Expression → Prop} (hword : ∀ t, P (.word t))
    (hwords : ∀ head arguments, P (.command ⟨head, arguments, none⟩)) {p : Phrase}
    {w : List Token} {s : Statement} (h : Derives p w s) : ∀ e ∈ s.atoms, P e := by
  have append {l r : List Expression} (hl : ∀ e ∈ l, P e) (hr : ∀ e ∈ r, P e) :
      ∀ e ∈ l ++ r, P e := by
    intro e he
    rcases List.mem_append.mp he with he | he
    · exact hl e he
    · exact hr e he
  induction h with
  | word =>
    intro e he
    rw [List.mem_singleton.mp he]
    exact hword _
  | words =>
    intro e he
    rw [List.mem_singleton.mp he]
    exact hwords _ _
  | bare => simp [Statement.atoms]
  | not _ _ ih | group _ _ _ ih | plain _ ih | redirect _ _ ih | single _ ih | alone _ ih
  | inner _ _ ih | innerClosed _ _ _ _ ih | ended _ _ ih | closed _ _ _ ih => exact ih
  | pipe _ _ _ _ ihl ihr | and _ _ _ _ ihl ihr | or _ _ _ _ ihl ihr
  | innerSequence _ _ _ _ _ ihl ihr | sequence _ _ _ ihl ihr => exact append ihl ihr

theorem TokenQueue.remembered_of_read {q q' : TokenQueue} {s : Statement}
    (h : q.read = (.ok (some s), q')) : s.Remembered := by
  obtain ⟨w, hd⟩ := Grammar.statement_of_read h
  exact Grammar.atoms_of_derives Expression.remembered_word
    (by simp [Expression.Remembered]) hd

namespace Session

theorem stop_le {session : Session} {failure : Failure} {status : Nat} (h : status ≤ 255)
    (s : ShellState) : (session.stop failure status s).1 ≤ 255 := by
  unfold stop
  split
  next => exact h
  next => exact show (1 : Nat) ≤ 255 by decide

/-- The status of a session stays one that fits, statement after statement. -/
theorem run_le {session : Session} (h : session.environment.execute.Fits) {source : Source}
    {q : TokenQueue} {status : Nat} {s : ShellState} (hs : status ≤ 255) :
    (session.run source q status s).1 ≤ 255 := by
  fun_induction Session.run session source q status s with
  | case1 => exact hs
  | case2 => exact stop_le hs _
  | case3 _ _ _ _ _ _ _ _ _ _ ih => exact ih (by decide)
  | case4 _ _ _ _ _ _ _ hr _ s evaluated _ ho ih =>
    have hv : Settled evaluated.effect :=
      Statement.evaluate_settled h (TokenQueue.remembered_of_read hr) s
    simp only [Settled, Evaluated.effect, ho] at hv
    exact ih hv.bounded
  | case5 _ _ _ _ _ _ _ hr _ s evaluated _ ho =>
    have hv : Settled evaluated.effect :=
      Statement.evaluate_settled h (TokenQueue.remembered_of_read hr) s
    simp only [Settled, Evaluated.effect, ho] at hv
    exact hv
  | case6 _ _ _ _ _ _ _ _ _ _ _ _ _ ih => exact ih (by decide)
  | case7 _ _ _ _ _ _ _ hr _ s evaluated _ ho =>
    have hv : Settled evaluated.effect :=
      Statement.evaluate_settled h (TokenQueue.remembered_of_read hr) s
    simp only [Settled, Evaluated.effect, ho] at hv
    exact hv

end Session

theorem Expression.ne_value_of_remembered {e : Expression} (h : e.Remembered) (n : Int) :
    e ≠ .value n := by
  rintro rfl
  exact h

theorem Ending.ofCode_of_le {code : Nat} (h : code ≤ 255) : Ending.ofCode code = .exited code := by
  rw [Ending.ofCode, Nat.mod_eq_of_lt (by omega)]

/-- The parent of a child that evaluates a statement learns the status, all of
it. -/
theorem ShellState.wait_finishChild {env : Environment} {t : Statement}
    (h : env.execute.Fits) (ht : t.Remembered) (s : ShellState) (p parent : Process) {n : Nat}
    (hn : (∃ r, (t.evaluate env { s with process := p }).outcome = .value r ∧
        (t.evaluate env { s with process := p }).state.status = n) ∨
      (t.evaluate env { s with process := p }).outcome = .leave n) :
    ((Guard.ofParent parent (finishChild env (.ok p) (fun s => (t.evaluate env s).effect) s).1).wait
      parent.pid).1 = .ok n := by
  have hs : Settled (t.evaluate env { s with process := p }).effect :=
    Statement.evaluate_settled h ht _
  have hend : (finishChild env (.ok p) (fun s => (t.evaluate env s).effect) s).1 = .exited n := by
    simp only [finishChild, Evaluated.effect]
    rcases hn with ⟨r, ho, rfl⟩ | ho
    · simp only [Settled, Evaluated.effect, ho] at hs
      rw [ho]
      exact Ending.ofCode_of_le hs.bounded
    · simp only [Settled, Evaluated.effect, ho] at hs
      rw [ho]
      exact Ending.ofCode_of_le hs
  rw [hend, Guard.wait_ofParent parent rfl]
  rfl

/-- The result of a statement and the status it leaves never drift apart, and
neither depends on the status before. So a status passes through the exit code
of a child without loss, and a session ends with a code that fits. -/
theorem result_agrees_with_status {env : Environment} (h : env.execute.Fits) :
    (∀ (t : Statement) (s : ShellState) (r : Result), t.Remembered →
      (t.evaluate env s).outcome = .value r →
      (r = .success ∨ r = .failure) ∧ (r = .success ↔ (t.evaluate env s).state.status = 0) ∧
      (t.evaluate env s).state.status ≤ 255 ∧
      ∀ n, (t.evaluate env { s with status := n }).outcome = .value r ∧
        (t.evaluate env { s with status := n }).state.status =
          (t.evaluate env s).state.status) ∧
    (∀ (t : Statement) (s : ShellState) (p parent : Process) (n : Nat), t.Remembered →
      (∃ r, (t.evaluate env { s with process := p }).outcome = .value r ∧
        (t.evaluate env { s with process := p }).state.status = n) ∨
      (t.evaluate env { s with process := p }).outcome = .leave n →
      ((Guard.ofParent parent (ShellState.finishChild env (.ok p)
        (fun s => (t.evaluate env s).effect) s).1).wait parent.pid).1 = .ok n) ∧
    (∀ (prompt : Text) (input : Input) (s : ShellState),
      (Session.start ⟨env, prompt⟩ input s).1 ≤ 255 ∧
      (Session.startShared ⟨env, prompt⟩ s).1 ≤ 255) := by
  refine ⟨?_, ?_, ?_⟩
  · intro t s r ht hr
    have hs : Settled (t.evaluate env s).effect := Statement.evaluate_settled h ht s
    simp only [Settled, Evaluated.effect, hr] at hs
    refine ⟨hs.result, hs.success_iff, hs.bounded, fun n => ?_⟩
    have ha : Alike (t.evaluate env s) (t.evaluate env (s.withStatus n)) :=
      Statement.evaluate_alike (fun e he => Expression.ne_value_of_remembered (ht e he)) s n
    have heq : t.evaluate env { s with status := n } = t.evaluate env s := ha.eq_of_value hr
    rw [heq]
    exact ⟨hr, rfl⟩
  · intro t s p parent n ht hn
    exact ShellState.wait_finishChild h ht s p parent hn
  · intro prompt input s
    exact ⟨Session.run_le h (Nat.zero_le _), Session.run_le h (Nat.zero_le _)⟩

/-- Evaluating `! cd a b` on a machine with the installed programs. -/
theorem result_agrees_with_status_not :
    Image.run.Fits ∧ ∃ s : ShellState,
      (Statement.evaluate (⟨none, none, Image.run, false, ⟨[], false, none⟩⟩ : Environment)
        (.not (.atom (.command ⟨⟨.command, ['c', 'd'], ⟨1, 3⟩⟩, [⟨.command, ['a'], ⟨1, 6⟩⟩,
          ⟨.command, ['b'], ⟨1, 8⟩⟩], none⟩))) s).state.status = 0 := by
  refine ⟨Image.run_fits, ⟨Console.process 1 [], Console.world World.standardTree [], 7⟩, ?_⟩
  exact (((@result_agrees_with_status ⟨none, none, Image.run, false, ⟨[], false, none⟩⟩
    Image.run_fits).1 _ _ .success (by
    intro e he
    rw [List.mem_singleton.mp he]
    simp [Expression.Remembered]) (by decide +kernel)).2.1).mp rfl

end TinyShell
