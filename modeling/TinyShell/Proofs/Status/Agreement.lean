import TinyShell.Shell.Evaluation

/-!
# Results and statuses

An evaluation returns a result and leaves a status behind. Both say the same:
the result is a success exactly if the status is zero, and the status is one
that an exit code can carry. What is assumed is that programs end with such a
status, and that commands remember nothing but what they came to.
-/

set_option autoImplicit false

namespace TinyShell

def Executor.Fits (execute : Executor) : Prop :=
  ∀ image call p w, (execute image call p w).1.status ≤ 255

structure Agree (r : Result) (status : Nat) : Prop where
  result : r = .success ∨ r = .failure
  success_iff : r = .success ↔ status = 0
  bounded : status ≤ 255

def Outcome.Agrees (status : Nat) : Outcome → Prop
  | value r => Agree r status
  | leave code => code ≤ 255
  | failed _ => True
  | replaced ending => ending.status ≤ 255

def Settled (e : Outcome × ShellState) : Prop := e.1.Agrees e.2.status

theorem agree_of_le {n : Nat} (h : n ≤ 255) :
    Agree (if n = 0 then .success else .failure) n := by
  by_cases hn : n = 0
  · subst hn
    exact ⟨.inl rfl, by decide, h⟩
  · rw [if_neg hn]
    exact ⟨.inr rfl, by simp [hn, Result.success, Result.failure], h⟩

theorem agree_of_result {r : Result} (h : r = .success ∨ r = .failure) :
    Agree r (if r = .success then 0 else 1) := by
  rcases h with rfl | rfl <;> exact ⟨by decide, by decide, by decide⟩

namespace ShellState

@[simp] theorem log_status (env : Environment) (severity : Severity) (message : Text)
    (s : ShellState) : (s.log env severity message).status = s.status := by
  unfold log
  split <;> rfl

@[simp] theorem noted_status (env : Environment) (world : World) (s : ShellState) :
    (s.noted env world).status = s.status := log_status _ _ _ _

@[simp] theorem release_status (env : Environment) (g : Guard) (s : ShellState) :
    (s.release env g).status = s.status := by
  simp only [release]
  cases (g.release s.process).1 <;> simp

theorem finish_settled {n : Nat} (h : n ≤ 255) (s : ShellState) : Settled (s.finish n) :=
  agree_of_le h

end ShellState

theorem Ending.status_ofCode_le (code : Nat) : (Ending.ofCode code).status ≤ 255 := by
  have h := Nat.mod_lt code (show 0 < 256 by decide)
  simp only [Ending.ofCode, Ending.status]
  omega

theorem Execution.status_of_replace {execute : Executor} (h : execute.Fits)
    {search : Option Text} {p : Process} {w : World} {name : Text} {arguments : List Text}
    {done : Ending × World} (hd : replace? execute search p w name arguments = some done) :
    done.1.status ≤ 255 := by
  unfold replace? at hd
  split at hd
  next => cases hd
  next =>
    rw [← Option.some.inj hd]
    exact h _ _ _ _

def Outcome.Fits (o : Outcome) : Prop := ∀ ending, o = .replaced ending → ending.status ≤ 255

theorem Settled.fits {e : Outcome × ShellState} (h : Settled e) : e.1.Fits := by
  intro ending he
  rw [Settled, he] at h
  exact h

/-- A child leaves with a status that fits, whatever its evaluation came to. -/
theorem Outcome.conclude_status_le (env : Environment) {o : Outcome} {s : ShellState}
    (h : o.Fits) : (o.conclude env s).1.status ≤ 255 := by
  cases o with
  | value r => exact Ending.status_ofCode_le _
  | leave code => exact Ending.status_ofCode_le _
  | failed failure => exact Ending.status_ofCode_le _
  | replaced ending => exact h ending rfl

namespace ShellState

variable {env : Environment}

theorem finishChild_status_le {body : ShellState → Outcome × ShellState}
    (h : ∀ s, (body s).1.Fits) (prepared : Except Failure Process) (s : ShellState) :
    (finishChild env prepared body s).1.status ≤ 255 := by
  cases prepared with
  | error failure => exact Ending.status_ofCode_le _
  | ok process => exact Outcome.conclude_status_le env (h _)

theorem wait_le {p : Process} {ending : Ending} {pid n : Nat} {g : Guard}
    (h : ending.status ≤ 255) (hw : (Guard.ofParent p ending).wait pid = (.ok n, g)) :
    n ≤ 255 := by
  by_cases hp : pid = p.pid
  · by_cases hk : ending.isKnown = true
    · rw [hp, Guard.wait_ofParent p hk] at hw
      cases hw
      exact h
    · simp [Guard.wait, Guard.ofParent, Guard.reap, hp, hk] at hw
  · simp [Guard.wait, Guard.ofParent, hp] at hw

theorem await_settled {p : Process} {ending : Ending} {younger : List Guard} {s : ShellState}
    {next : Nat → ShellState → Outcome × ShellState} (h : ending.status ≤ 255)
    (hn : ∀ n s, n ≤ 255 → Settled (next n s)) :
    Settled (s.await env (Guard.ofParent p ending) younger next) := by
  simp only [await]
  split
  next => trivial
  next n hw =>
    have hle : n ≤ 255 := wait_le h (Prod.ext hw rfl)
    simpa [Settled] using hn n s hle

theorem becomeProgram_status_le (h : env.execute.Fits) (notice : Pipe) (command : Text)
    (arguments : List Text) (s : ShellState) :
    (becomeProgram env notice command arguments s).1.status ≤ 255 := by
  simp only [becomeProgram]
  split
  next hd => exact Execution.status_of_replace h hd
  next => exact Ending.status_ofCode_le _

theorem runProgram_settled (h : env.execute.Fits) (command : Text) (arguments : List Text)
    (s : ShellState) : Settled (s.runProgram env command arguments) := by
  unfold runProgram
  split
  next => trivial
  next =>
    refine await_settled (becomeProgram_status_le h _ _ _ _) fun n s hn => ?_
    exact finish_settled hn _

end ShellState

namespace Builtin

variable {env : Environment}

def Comes : Outcome → Prop
  | .value r => r = .success ∨ r = .failure
  | .leave code => code ≤ 255
  | .failed _ => True
  | .replaced ending => ending.status ≤ 255

theorem runCd_comes (arguments : List Text) (sink : Sink) (s : ShellState) :
    Comes (runCd env arguments sink s).1 := by
  simp only [runCd]
  repeat' split
  all_goals first | exact .inl rfl | trivial

theorem report_comes {s : ShellState} {names : List Text} {result : Result} {sink : Sink}
    (h : result = .success ∨ result = .failure) : Comes (report env s names result sink).1 := by
  induction names generalizing result sink with
  | nil => exact h
  | cons name names ih =>
    simp only [report]
    split
    next => trivial
    next =>
      apply ih
      split
      next => exact h
      next => exact .inr rfl

theorem run_comes (h : env.execute.Fits) (b : Builtin) (arguments : List Text) (sink : Sink)
    (s : ShellState) : Comes (b.run env arguments sink s).1 := by
  cases b with
  | cd => exact runCd_comes arguments sink s
  | exit =>
    simp only [run, runExit]
    split
    next => exact Nat.zero_le _
    next => trivial
  | help =>
    simp only [run, runHelp]
    split
    next =>
      split
      next => exact .inl rfl
      next => trivial
    next => trivial
  | type =>
    simp only [run, runType]
    split
    next => trivial
    next => exact report_comes (.inl rfl)
  | exec =>
    simp only [run, runExec]
    split
    next => trivial
    next =>
      split
      next => trivial
      next =>
        split
        next hd => exact Execution.status_of_replace h hd
        next => trivial

end Builtin

namespace ShellState

variable {env : Environment}

theorem runBuiltin_settled (h : env.execute.Fits) (b : Builtin) (arguments : List Text)
    (s : ShellState) : Settled (s.runBuiltin env b arguments) := by
  have hc := Builtin.run_comes h b arguments (.ofDescriptor 1 s) s
  simp only [runBuiltin]
  split
  next r hr =>
    rw [hr] at hc
    exact agree_of_result hc
  next o _ =>
    cases ho : (b.run env arguments (.ofDescriptor 1 s) s).1 with
    | value r => simp_all
    | leave code => rw [ho] at hc; exact hc
    | failed failure => trivial
    | replaced ending => rw [ho] at hc; exact hc

theorem settle_settled {o : Outcome} {s : ShellState} (h : Settled (o, s)) :
    Settled (s.settle env o) := by
  unfold settle
  split
  next => exact finish_settled (by decide) _
  next => exact h

theorem runCommand_settled (h : env.execute.Fits) (command : Text) (arguments : List Text)
    (s : ShellState) : Settled (s.runCommand env command arguments) := by
  simp only [runCommand]
  apply settle_settled
  split
  next => exact runBuiltin_settled h _ _ _
  next => exact runProgram_settled h _ _ _

end ShellState

def Memo.Written (m : Memo) : Prop :=
  ∃ (env : Environment) (i : Invocation) (s : ShellState),
    env.execute.Fits ∧ i.memo = none ∧ (s.invoke env i).form.memo = some m

theorem Memo.agree_of_written {m : Memo} (h : m.Written) : Agree m.result m.status := by
  obtain ⟨env, i, s, hf, hi, hm⟩ := h
  simp only [ShellState.invoke, hi] at hm
  split at hm
  next r hr =>
    have hs := ShellState.runCommand_settled hf
      (i.mapWords (Expansion.expand env.home s.process.pid)).head.text
      ((i.mapWords (Expansion.expand env.home s.process.pid)).arguments.map Token.text) s
    simp only [Settled, hr] at hs
    cases hm
    exact hs
  next => simp [Invocation.mapWords, hi] at hm

namespace Statement

def atoms : Statement → List Expression
  | sequence left right | and left right | or left right | pipeline left right =>
    left.atoms ++ right.atoms
  | closed inner | not inner | redirect _ inner => inner.atoms
  | bare _ => []
  | atom expression => [expression]

end Statement

def Expression.Remembered : Expression → Prop
  | command i | string i => ∀ m, i.memo = some m → m.Written
  | value _ => False

def Statement.Remembered (t : Statement) : Prop := ∀ e ∈ t.atoms, e.Remembered

namespace ShellState

variable {env : Environment}

theorem invoke_settled (h : env.execute.Fits) {i : Invocation}
    (hi : ∀ m, i.memo = some m → m.Written) (s : ShellState) :
    Settled ((s.invoke env i).outcome, (s.invoke env i).state) := by
  unfold invoke
  split
  next m hm => exact Memo.agree_of_written (hi m hm)
  next =>
    have hs := runCommand_settled h
      (i.mapWords (Expansion.expand env.home s.process.pid)).head.text
      ((i.mapWords (Expansion.expand env.home s.process.pid)).arguments.map Token.text) s
    simp only
    split
    next r hr =>
      simp only [Settled, hr] at hs
      exact hs
    next => exact hs

theorem runPipeline_settled {left right : ShellState → Outcome × ShellState}
    (hl : ∀ s, (left s).1.Fits) (hr : ∀ s, (right s).1.Fits) (s : ShellState) :
    Settled (s.runPipeline env left right) := by
  unfold runPipeline
  refine await_settled (finishChild_status_le hl _ _) fun n s hn => ?_
  refine await_settled (finishChild_status_le hr _ _) fun m s hm => ?_
  apply finish_settled
  unfold pipelineStatus
  split
  next => exact hm
  next => exact hn

theorem runRedirected_settled {body : ShellState → Outcome × ShellState}
    (hb : ∀ s, (body s).1.Fits) (redirection : Redirection) (s : ShellState) :
    Settled (s.runRedirected env redirection body) := by
  unfold runRedirected
  split
  next => trivial
  next =>
    split
    next => exact finish_settled (by decide) _
    next =>
      refine await_settled (finishChild_status_le hb _ _) fun n s hn => ?_
      exact finish_settled hn _

end ShellState

/-- Whatever a statement comes to agrees with the status it leaves. -/
theorem Statement.evaluate_settled {env : Environment} (h : env.execute.Fits) {t : Statement}
    (ht : t.Remembered) (s : ShellState) : Settled (t.evaluate env s).effect := by
  induction t generalizing s with
  | sequence left right ihl ihr =>
    have hl := ihl (fun e he => ht e (by simp [atoms, he])) s
    have hr := ihr (fun e he => ht e (by simp [atoms, he]))
    simp only [evaluate]
    split
    next => exact hr _
    next => exact hl
  | closed left ih => exact ih ht s
  | and left right ihl ihr =>
    have hl := ihl (fun e he => ht e (by simp [atoms, he])) s
    have hr := ihr (fun e he => ht e (by simp [atoms, he]))
    simp only [evaluate]
    split
    next r ho =>
      simp only [Settled, Evaluated.effect, ho] at hl
      split
      next => exact hr _
      next hn =>
        -- The left side failed, and its status stands.
        have hf : r = .failure := hl.result.resolve_left hn
        rw [hf] at hl
        exact hl
    next => exact hl
  | or left right ihl ihr =>
    have hl := ihl (fun e he => ht e (by simp [atoms, he])) s
    have hr := ihr (fun e he => ht e (by simp [atoms, he]))
    simp only [evaluate]
    split
    next r ho =>
      simp only [Settled, Evaluated.effect, ho] at hl
      split
      next hs =>
        rw [hs] at hl
        exact hl
      next => exact hr _
    next => exact hl
  | not inner ih =>
    have hi := ih ht s
    simp only [evaluate]
    split
    next =>
      apply ShellState.finish_settled
      split <;> decide
    next => exact hi
  | pipeline left right ihl ihr =>
    have hl := ihl fun e he => ht e (by simp [atoms, he])
    have hr := ihr fun e he => ht e (by simp [atoms, he])
    exact ShellState.runPipeline_settled (fun s => (hl s).fits) (fun s => (hr s).fits) s
  | redirect redirection left ih =>
    exact ShellState.runRedirected_settled (fun s => (ih ht s).fits) _ s
  | bare redirection =>
    refine ShellState.runRedirected_settled (fun s => ?_) _ s
    exact (ShellState.finish_settled (by decide) s).fits
  | atom expression =>
    have he := ht expression (by simp [atoms])
    cases expression with
    | command i => exact ShellState.invoke_settled h he s
    | string i => exact ShellState.invoke_settled h he s
    | value n => exact he.elim

end TinyShell
