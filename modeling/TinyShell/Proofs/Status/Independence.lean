import TinyShell.Proofs.Status.Agreement

/-!
# The status before an evaluation

No evaluation looks at the status that it finds: if it comes to a value, the
outcome, the form and the whole state are the same whatever that status was,
and otherwise they are the same up to the status.
-/

set_option autoImplicit false

namespace TinyShell

namespace ShellState

def withStatus (n : Nat) (s : ShellState) : ShellState := { s with status := n }

variable {env : Environment} (n : Nat) (s : ShellState)

@[simp] theorem withStatus_process : (s.withStatus n).process = s.process := rfl

@[simp] theorem withStatus_world : (s.withStatus n).world = s.world := rfl

theorem log_withStatus (severity : Severity) (message : Text) :
    (s.withStatus n).log env severity message = (s.log env severity message).withStatus n := by
  unfold log
  split <;> rfl

theorem release_withStatus (g : Guard) :
    (s.withStatus n).release env g = (s.release env g).withStatus n := by
  simp only [release, withStatus_process]
  cases (g.release s.process).1 with
  | none => rfl
  | some failure => simp only [log_withStatus]; rfl

theorem foldl_release_withStatus (gs : List Guard) :
    gs.foldl (fun s g => s.release env g) (s.withStatus n) =
      (gs.foldl (fun s g => s.release env g) s).withStatus n := by
  induction gs generalizing s with
  | nil => rfl
  | cons g gs ih => rw [List.foldl_cons, List.foldl_cons, release_withStatus, ih]

theorem finish_withStatus (m : Nat) : (s.withStatus n).finish m = s.finish m := rfl

theorem fork_withStatus {work : ShellState → Ending × World}
    (hw : ∀ s n, work (s.withStatus n) = work s) :
    (s.withStatus n).fork work = ((s.fork work).1, (s.fork work).2.withStatus n) := by
  have h : work ((s.withStatus n).onProcess Process.forked) = work (s.onProcess Process.forked) :=
    hw (s.onProcess Process.forked) n
  simp only [fork, h]
  rfl

theorem noted_withStatus (world : World) :
    (s.withStatus n).noted env world = (s.noted env world).withStatus n :=
  log_withStatus n { s.onProcess Process.forking with world := world } _ _

theorem forkNoted_withStatus {work : ShellState → Ending × World}
    (hw : ∀ s n, work (s.withStatus n) = work s) :
    (s.withStatus n).forkNoted env work =
      ((s.forkNoted env work).1, (s.forkNoted env work).2.withStatus n) := by
  simp only [forkNoted, fork_withStatus n s hw, noted_withStatus]
  rfl

end ShellState

open ShellState

structure Same (e e' : Outcome × ShellState) : Prop where
  outcome : e'.1 = e.1
  process : e'.2.process = e.2.process
  world : e'.2.world = e.2.world
  status : ∀ r, e.1 = .value r → e'.2.status = e.2.status

namespace Same

theorem refl (e : Outcome × ShellState) : Same e e := ⟨rfl, rfl, rfl, fun _ _ => rfl⟩

theorem of_withStatus {o : Outcome} (s : ShellState) (n : Nat) (h : ∀ r, o ≠ .value r) :
    Same (o, s) (o, s.withStatus n) := ⟨rfl, rfl, rfl, fun r hr => absurd hr (h r)⟩

theorem eq_withStatus {e e' : Outcome × ShellState} (h : Same e e') :
    e'.2 = e.2.withStatus e'.2.status := by
  have hp := h.process
  have hw := h.world
  cases h' : e'.2
  simp_all [ShellState.withStatus]

theorem eq_of_value {e e' : Outcome × ShellState} (h : Same e e') {r : Result}
    (hr : e.1 = .value r) : e'.2 = e.2 := by
  rw [h.eq_withStatus, h.status r hr]
  rfl

theorem onProcess {e e' : Outcome × ShellState} (h : Same e e') (f : Process → Process) :
    Same (e.1, e.2.onProcess f) (e'.1, e'.2.onProcess f) :=
  ⟨h.outcome, congrArg f h.process, h.world, h.status⟩

theorem conclude {e e' : Outcome × ShellState} (h : Same e e') (env : Environment) :
    e'.1.conclude env e'.2 = e.1.conclude env e.2 := by
  rw [h.outcome]
  cases ho : e.1 with
  | value r => rw [h.eq_of_value ho]
  | leave code => simp only [Outcome.conclude, h.world]
  | failed failure =>
    rw [h.eq_withStatus]
    simp only [Outcome.conclude, log_withStatus, withStatus_world]
  | replaced ending => simp only [Outcome.conclude, h.world]

end Same

structure Alike {α : Type} (e e' : Evaluated α) : Prop where
  form : e'.form = e.form
  effect : Same e.effect e'.effect

namespace Alike

theorem refl {α : Type} (e : Evaluated α) : Alike e e := ⟨rfl, .refl _⟩

theorem outcome {α : Type} {e e' : Evaluated α} (h : Alike e e') : e'.outcome = e.outcome :=
  h.effect.outcome

theorem eq_of_value {α : Type} {e e' : Evaluated α} (h : Alike e e') {r : Result}
    (hr : e.outcome = .value r) : e' = e := by
  have hs : e'.state = e.state := h.effect.eq_of_value hr
  have ho := h.outcome
  have hf := h.form
  cases e
  cases e'
  simp_all

theorem map {α β : Type} {e e' : Evaluated α} (h : Alike e e') (f : α → β) :
    Alike (e.map f) (e'.map f) := ⟨congrArg f h.form, h.effect⟩

theorem ofEffect {α : Type} (form : α) {e e' : Outcome × ShellState} (h : Same e e') :
    Alike (.ofEffect form e) (.ofEffect form e') := ⟨rfl, h⟩

end Alike

def Independent (f : ShellState → Outcome × ShellState) : Prop :=
  ∀ s n, Same (f s) (f (s.withStatus n))

namespace ShellState

variable {env : Environment}

theorem finishChild_withStatus {body : ShellState → Outcome × ShellState}
    (hb : Independent body) (prepared : Except Failure Process) (s : ShellState) (n : Nat) :
    finishChild env prepared body (s.withStatus n) = finishChild env prepared body s := by
  cases prepared with
  | error failure => simp only [finishChild, Outcome.conclude, log_withStatus, withStatus_world]
  | ok process => exact (hb { s with process := process } n).conclude env

theorem await_same {g : Guard} {younger : List Guard}
    {next : Nat → ShellState → Outcome × ShellState} (hn : ∀ m, Independent (next m)) :
    Independent fun s => s.await env g younger next := by
  intro s n
  simp only [await, withStatus_process]
  split
  next =>
    rw [foldl_release_withStatus, release_withStatus]
    exact Same.of_withStatus _ n (by simp)
  next m _ =>
    have h := hn m s n
    have hr : (next m (s.withStatus n)).2.release env (g.wait s.process.pid).2 =
        ((next m s).2.release env (g.wait s.process.pid).2).withStatus
          (next m (s.withStatus n)).2.status := by
      rw [← release_withStatus, ← h.eq_withStatus]
    refine ⟨h.outcome, by rw [hr]; rfl, by rw [hr]; rfl, ?_⟩
    intro r hv
    rw [h.eq_of_value hv]

theorem logged_finish_independent (severity : Severity) (message : Text) (m : Nat) :
    Independent fun s => (s.log env severity message).finish m := by
  intro s n
  simp only [log_withStatus, finish_withStatus]
  exact .refl _

end ShellState

theorem Builtin.run_withStatus {env : Environment} (b : Builtin) (arguments : List Text)
    (sink : Sink) (s : ShellState) (n : Nat) :
    b.run env arguments sink (s.withStatus n) =
      ((b.run env arguments sink s).1, (b.run env arguments sink s).2.1,
        (b.run env arguments sink s).2.2.withStatus n) := by
  cases b with
  | cd =>
    simp only [run, runCd, withStatus_process, withStatus_world]
    repeat' split
    all_goals rfl
  | exit =>
    simp only [run, runExit]
    split <;> rfl
  | help =>
    simp only [run, runHelp]
    repeat' split
    all_goals rfl
  | type =>
    have hr (names : List Text) (result : Result) (sink : Sink) :
        report env (s.withStatus n) names result sink = report env s names result sink := by
      induction names generalizing result sink with
      | nil => rfl
      | cons name names ih =>
        simp only [report, ih]
        rfl
    simp only [run, runType, hr]
    split <;> rfl
  | exec =>
    simp only [run, runExec, withStatus_process, withStatus_world]
    repeat' split
    all_goals rfl

namespace ShellState

variable {env : Environment}

theorem ofDescriptor_withStatus (fd : Nat) (s : ShellState) (n : Nat) :
    Sink.ofDescriptor fd (s.withStatus n) = Sink.ofDescriptor fd s := rfl

theorem runBuiltin_independent (b : Builtin) (arguments : List Text) :
    Independent fun s => s.runBuiltin env b arguments := by
  intro s n
  simp only [runBuiltin, ofDescriptor_withStatus, Builtin.run_withStatus, withStatus_process,
    withStatus_world]
  cases (b.run env arguments (.ofDescriptor 1 s) s).1 with
  | value r => exact .refl _
  | leave code => exact .of_withStatus _ n (by simp)
  | failed failure => exact .of_withStatus _ n (by simp)
  | replaced ending => exact .of_withStatus _ n (by simp)

theorem reportProgram_independent (notice : Pipe) (command : Text) (m : Nat) :
    Independent (reportProgram env notice command m) := by
  intro s n
  have h (s : ShellState) : Same ((s.log env .debug (command ++ " exited with " ++
      Text.ofNat m)).finish m) (((s.withStatus n).log env .debug (command ++ " exited with " ++
      Text.ofNat m)).finish m) := logged_finish_independent _ _ m s n
  by_cases hc : (notice.receive s.process s.world).1 = some true
  · have hl := h (ShellState.log env .error (Failure.notFound command).message
      { s with world := (notice.receive s.process s.world).2 })
    rw [← log_withStatus] at hl
    simp only [reportProgram, withStatus_process, withStatus_world, hc, ↓reduceIte]
    exact hl
  · simp only [reportProgram, withStatus_process, withStatus_world, hc, ↓reduceIte]
    exact h { s with world := (notice.receive s.process s.world).2 }

theorem runProgram_independent (command : Text) (arguments : List Text) :
    Independent fun s => s.runProgram env command arguments := by
  intro s n
  have hopen : (s.withStatus n).openPipe = (s.openPipe.1, s.openPipe.2.withStatus n) := rfl
  have hfork : (s.openPipe.2.withStatus n).forkNoted env
      (becomeProgram env s.openPipe.1 command arguments) = _ :=
    forkNoted_withStatus n s.openPipe.2 fun _ _ => rfl
  simp only [runProgram_reliable, hopen, hfork]
  split
  next => exact .of_withStatus s n (by simp)
  next => exact (await_same (reportProgram_independent _ command) _ n).onProcess _

theorem settle_same {e e' : Outcome × ShellState} (h : Same e e') :
    Same (e.2.settle env e.1) (e'.2.settle env e'.1) := by
  rw [h.outcome]
  unfold settle
  split
  next => rw [h.eq_withStatus]; exact logged_finish_independent _ _ 1 e.2 _
  next => exact ⟨rfl, h.process, h.world, h.status⟩

theorem runCommand_independent (command : Text) (arguments : List Text) :
    Independent fun s => s.runCommand env command arguments := by
  intro s n
  simp only [runCommand, log_withStatus]
  apply settle_same
  cases Builtin.ofName? command with
  | some b => exact runBuiltin_independent b arguments _ n
  | none => exact runProgram_independent command arguments _ n

theorem invoke_alike (i : Invocation) (s : ShellState) (n : Nat) :
    Alike (s.invoke env i) ((s.withStatus n).invoke env i) := by
  cases hm : i.memo with
  | some m =>
    simp only [invoke, hm, withStatus]
    exact .refl _
  | none =>
    simp only [invoke, hm, withStatus_process]
    generalize i.mapWords (Expansion.expand env.home s.process.pid) = j
    have h : Same (s.runCommand env j.head.text (j.arguments.map Token.text))
        ((s.withStatus n).runCommand env j.head.text (j.arguments.map Token.text)) :=
      runCommand_independent _ _ s n
    generalize s.runCommand env _ _ = e at h ⊢
    generalize (s.withStatus n).runCommand env _ _ = e' at h ⊢
    rw [h.outcome]
    cases hr : e.1 with
    | value r =>
      rw [h.eq_of_value hr]
      exact .refl _
    | leave code | failed failure | replaced ending =>
      exact ⟨rfl, rfl, h.process, h.world, by simp [Evaluated.effect]⟩

theorem pipelineSide_withStatus {body : ShellState → Outcome × ShellState}
    (hb : Independent body) (pipe : Pipe) (connect : Process → Except Failure Process)
    (s : ShellState) (n : Nat) :
    pipelineSide env pipe connect body (s.withStatus n) = pipelineSide env pipe connect body s :=
  finishChild_withStatus hb _ (s.onProcess fun p => (pipe.close p).2) n

theorem runPipeline_independent {left right : ShellState → Outcome × ShellState}
    (hl : Independent left) (hr : Independent right) :
    Independent fun s => s.runPipeline env left right := by
  intro s n
  have hopen : (s.withStatus n).openPipe = (s.openPipe.1, s.openPipe.2.withStatus n) := rfl
  have hfork {body : ShellState → Outcome × ShellState} (hb : Independent body) (pipe : Pipe)
      (connect : Process → Except Failure Process) (s : ShellState) :
      (s.withStatus n).forkNoted env (pipelineSide env pipe connect body) =
        ((s.forkNoted env (pipelineSide env pipe connect body)).1,
          (s.forkNoted env (pipelineSide env pipe connect body)).2.withStatus n) :=
    forkNoted_withStatus n s (pipelineSide_withStatus hb pipe connect)
  simp only [runPipeline_reliable, hopen, hfork hl, hfork hr]
  refine await_same (fun m => ?_) _ n
  exact await_same fun m' => logged_finish_independent _ _ _

theorem runRedirected_independent {body : ShellState → Outcome × ShellState}
    (hb : Independent body) (redirection : Redirection) :
    Independent fun s => s.runRedirected env redirection body := by
  intro s n
  cases hw : Wiring.ofRedirection redirection with
  | error complaint =>
    simp only [runRedirected_reliable, hw]
    exact .of_withStatus s n (by simp)
  | ok wiring =>
    simp only [runRedirected_reliable, hw, withStatus_process, withStatus_world]
    cases hv : wiring.verify s.process s.world with
    | error refused => exact logged_finish_independent _ _ 1 { s with world := refused.2 } n
    | ok world =>
      have hwork (s : ShellState) (n : Nat) :
          rewired env wiring body (s.withStatus n) = rewired env wiring body s :=
        finishChild_withStatus hb _ { s with world := (wiring.wire s.process s.world).2 } n
      have hfork : forkNoted env (rewired env wiring body)
          { process := s.process, world := world, status := (s.withStatus n).status } = _ :=
        forkNoted_withStatus n { s with world := world } hwork
      simp only [hfork]
      exact await_same (fun m => logged_finish_independent _ _ m) _ n

end ShellState

theorem Expression.evaluate_alike {env : Environment} {e : Expression}
    (he : ∀ n, e ≠ .value n) (s : ShellState) (n : Nat) :
    Alike (e.evaluate env s) (e.evaluate env (s.withStatus n)) := by
  cases e with
  | command i => exact (invoke_alike i s n).map _
  | string i => exact (invoke_alike i s n).map _
  | value m => exact absurd rfl (he m)

theorem Statement.evaluate_alike {env : Environment} {t : Statement}
    (ht : ∀ e ∈ t.atoms, ∀ n, e ≠ .value n) (s : ShellState) (n : Nat) :
    Alike (t.evaluate env s) (t.evaluate env (s.withStatus n)) := by
  induction t generalizing s n with
  | sequence left right ihl ihr =>
    have hl := ihl (fun e he => ht e (by simp [atoms, he])) s n
    simp only [evaluate, hl.outcome]
    cases ho : (left.evaluate env s).outcome with
    | value r => rw [hl.eq_of_value ho]; exact .refl _
    | leave code | failed failure | replaced ending => exact hl.map _
  | closed left ih => exact (ih ht s n).map _
  | and left right ihl ihr =>
    have hl := ihl (fun e he => ht e (by simp [atoms, he])) s n
    simp only [evaluate, hl.outcome]
    cases ho : (left.evaluate env s).outcome with
    | value r => rw [hl.eq_of_value ho]; exact .refl _
    | leave code | failed failure | replaced ending => exact hl.map _
  | or left right ihl ihr =>
    have hl := ihl (fun e he => ht e (by simp [atoms, he])) s n
    simp only [evaluate, hl.outcome]
    cases ho : (left.evaluate env s).outcome with
    | value r => rw [hl.eq_of_value ho]; exact .refl _
    | leave code | failed failure | replaced ending => exact hl.map _
  | not inner ih =>
    have hi := ih ht s n
    simp only [evaluate, hi.outcome]
    cases ho : (inner.evaluate env s).outcome with
    | value r => rw [hi.eq_of_value ho]; exact .refl _
    | leave code | failed failure | replaced ending => exact hi.map _
  | pipeline left right ihl ihr =>
    have hl : Independent fun s => (left.evaluate env s).effect := fun s n =>
      (ihl (fun e he => ht e (by simp [atoms, he])) s n).effect
    have hr : Independent fun s => (right.evaluate env s).effect := fun s n =>
      (ihr (fun e he => ht e (by simp [atoms, he])) s n).effect
    exact .ofEffect _ (runPipeline_independent hl hr s n)
  | redirect redirection left ih =>
    have hl : Independent fun s => (left.evaluate env s).effect := fun s n => (ih ht s n).effect
    exact .ofEffect _ (runRedirected_independent hl (redirection.expand env s) s n)
  | bare redirection =>
    have hi : Independent idle := fun s n => .refl _
    exact .ofEffect _ (runRedirected_independent hi (redirection.expand env s) s n)
  | atom expression => exact (Expression.evaluate_alike (ht expression (by simp [atoms])) s n).map _

end TinyShell
