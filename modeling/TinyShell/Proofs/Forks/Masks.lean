import TinyShell.Proofs.Commands.Rewriting
import TinyShell.Proofs.Status.Pipelines

/-!
# Masks around forks

A guard keeps the mask that its fork has found, and letting go of it brings
that mask back; a fork that is refused brings it back itself. Guards are let go
in the reverse order of their forks, so what an evaluation finds is what it
leaves, whether or not it could fork. While a guard is held, interrupt and
suspend are held back. In a child no guard of its parent does anything.
-/

set_option autoImplicit false

namespace TinyShell

namespace Guard

variable {g : Guard} {p : Process} {pid : Nat}

theorem wait_keeps (g : Guard) (pid : Nat) :
    (g.wait pid).2.previous = g.previous ∧ (g.wait pid).2.owner = g.owner ∧
      (g.wait pid).2.child = g.child := by
  unfold wait reap
  repeat' split
  all_goals exact ⟨rfl, rfl, rfl⟩

theorem wait_isParent (g : Guard) (pid other : Nat) :
    (g.wait pid).2.isParent other = g.isParent other := by
  obtain ⟨_, howner, hchild⟩ := g.wait_keeps pid
  rw [isParent, howner, hchild, isParent]

theorem release_blocked (h : g.isParent p.pid = true) :
    (g.release p).2.signals.blocked = g.previous := by
  rw [release, if_pos h]
  split <;> rfl

theorem release_copy (h : g.isParent p.pid = false) : g.release p = (none, p) := by
  rw [release, if_neg (by simp [h])]

theorem wait_copy (h : g.isParent pid = false) : (g.wait pid).2 = g ∧
    (g.status = none → (g.wait pid).1 = .error (.argument .notParent)) := by
  unfold wait
  split
  next hs => exact ⟨rfl, fun h => by rw [hs] at h; cases h⟩
  next hc =>
    have hne : pid ≠ g.owner := by simpa [isParent, hc] using h
    rw [if_neg hne]
    exact ⟨rfl, fun _ => rfl⟩
  next => exact ⟨rfl, fun _ => rfl⟩

/-- These guards are held by the process, the youngest first, if the mask was
the first one before the oldest of them and is the second one now. -/
def Held (pid : Nat) (mask : SignalMask) : List Guard → SignalMask → Prop
  | [], now => now = mask
  | g :: older, now => g.isParent pid = true ∧ Held pid mask older g.previous ∧
      now = fun x => g.previous x || x.isGuarded

variable {mask now : SignalMask} {younger older : List Guard}

theorem Held.blocked (h : Held pid mask older now) (hn : older ≠ []) :
    now = fun x => mask x || x.isGuarded := by
  induction older generalizing now with
  | nil => exact absurd rfl hn
  | cons g others ih =>
    obtain ⟨_, hothers, rfl⟩ := h
    cases others with
    | nil => rw [show g.previous = mask from hothers]
    | cons =>
      rw [ih hothers (by simp)]
      funext x
      rw [Bool.or_assoc, Bool.or_self]

theorem Held.owner (h : Held pid mask older now) (hg : g ∈ older) : g.isParent pid = true := by
  induction older generalizing now with
  | nil => cases hg
  | cons g' others ih =>
    rcases List.mem_cons.mp hg with rfl | hg
    · exact h.1
    · exact ih h.2.1 hg

/-- Waiting for one of the children leaves the guards as they are held. -/
theorem Held.wait (h : Held pid mask (younger ++ g :: older) now) (other : Nat) :
    Held pid mask (younger ++ (g.wait other).2 :: older) now := by
  induction younger generalizing now with
  | nil =>
    obtain ⟨hparent, holder, hnow⟩ := h
    refine ⟨by rw [wait_isParent]; exact hparent, ?_, ?_⟩
    · rw [(g.wait_keeps other).1]
      exact holder
    · rw [(g.wait_keeps other).1]
      exact hnow
  | cons g' others ih => exact ⟨h.1, ih h.2.1, h.2.2⟩

end Guard

theorem Pipe.closeEnd_signals (fd : Option Nat) (p : Process) :
    (closeEnd fd p).signals = p.signals := by
  cases fd <;> rfl

theorem Pipe.close_signals (pipe : Pipe) (p : Process) : (pipe.close p).2.signals = p.signals :=
  (closeEnd_signals pipe.writer _).trans (closeEnd_signals pipe.reader p)

namespace ShellState

variable {host : Host} {env : Environment} {s m m' : ShellState} {g : Guard}
  {gs younger older : List Guard}

structure Guarded (s : ShellState) (gs : List Guard) (m : ShellState) : Prop where
  pid : m.process.pid = s.process.pid
  held : Guard.Held s.process.pid s.process.signals.blocked gs m.process.signals.blocked

theorem guarded_refl (s : ShellState) : Guarded s [] s := ⟨rfl, rfl⟩

namespace Guarded

theorem keep (h : Guarded s gs m) (hp : m'.process.pid = m.process.pid)
    (hm : m'.process.signals.blocked = m.process.signals.blocked) : Guarded s gs m' :=
  ⟨hp.trans h.pid, by rw [hm]; exact h.held⟩

theorem keep_process (h : Guarded s gs m) (hp : m'.process = m.process) : Guarded s gs m' :=
  h.keep (by rw [hp]) (by rw [hp])

theorem trans (h : Guarded s [] m) (h' : Guarded m gs m') : Guarded s gs m' := by
  refine ⟨h'.pid.trans h.pid, ?_⟩
  have hheld := h'.held
  rwa [h.pid, show m.process.signals.blocked = s.process.signals.blocked from h.held] at hheld

theorem forkNoted (h : Guarded s gs m) (work : ShellState → Ending × World) :
    Guarded s ((m.forkNoted env work).1 :: gs) (m.forkNoted env work).2 := by
  constructor
  · rw [forkNoted_process]
    exact h.pid
  · rw [forkNoted_process]
    refine ⟨?_, h.held, rfl⟩
    change (true && s.process.pid == m.process.pid) = true
    simp [h.pid]

theorem spawned (h : Guarded s gs m) {work : ShellState → Ending × World}
    (hf : m.spawn host work = (.ok g, m')) : Guarded s (g :: gs) m' := by
  have hspawned := m.spawn_spawned host work
  rw [hf] at hspawned
  cases hspawned
  exact h.forkNoted work

/-- A fork that is refused brings back the mask that it has changed. -/
theorem refused (h : Guarded s gs m) {work : ShellState → Ending × World} {failure : Failure}
    (hf : m.spawn host work = (.error failure, m')) : Guarded s gs m' := by
  have hspawned := m.spawn_spawned host work
  rw [hf] at hspawned
  cases hspawned
  exact h

theorem closeEnd (h : Guarded s gs m) (fd : Option Nat) :
    Guarded s gs (m.onProcess (Pipe.closeEnd fd)) :=
  h.keep (Pipe.closeEnd_alongside fd _).pid
    (congrArg SignalState.blocked (Pipe.closeEnd_signals fd _))

theorem closePipe (h : Guarded s gs m) (pipe : Pipe) : Guarded s gs (m.closePipe pipe) :=
  (h.closeEnd pipe.reader).closeEnd pipe.writer

theorem piped (h : Guarded s gs m) {made : Except Failure Pipe × ShellState} (hp : m.Piped made) :
    Guarded s gs made.2 := by
  have hopened : Guarded s gs m.openPipe.2 := h.keep rfl rfl
  cases hp with
  | opened => exact hopened
  | refused => exact h
  | closed => exact hopened.closePipe _

theorem makePipe (h : Guarded s gs m) {made : Except Failure Pipe}
    (hp : m.makePipe host = (made, m')) : Guarded s gs m' := by
  have hpiped := h.piped (m.makePipe_piped host)
  rw [hp] at hpiped
  exact hpiped

theorem makeNotice (h : Guarded s gs m) {made : Except Failure Pipe}
    (hp : m.makeNotice host = (made, m')) : Guarded s gs m' := by
  have hpiped := h.piped (m.makeNotice_piped host)
  rw [hp] at hpiped
  exact hpiped

theorem release (h : Guarded s (g :: older) m) : Guarded s older (m.release env g) := by
  have hparent : g.isParent m.process.pid = true := by
    rw [h.pid]
    exact h.held.1
  refine ⟨(release_alongside g).pid.trans h.pid, ?_⟩
  have hmask : (m.release env g).process.signals.blocked = g.previous :=
    Guard.release_blocked hparent
  rw [hmask]
  exact h.held.2.1

theorem releases (h : Guarded s (younger ++ older) m) :
    Guarded s older (younger.foldl (fun m g => m.release env g) m) := by
  induction younger generalizing m with
  | nil => exact h
  | cons g younger ih => exact ih h.release

/-- What comes after a wait has to let go of the younger guards; the guard that
was waited for is then let go. -/
theorem await (younger : List Guard) {next : Nat → ShellState → Outcome × ShellState}
    (h : Guarded s (younger ++ g :: older) m)
    (hn : ∀ n g', Guarded s (younger ++ g' :: older) m → Guarded s (g' :: older) (next n m).2) :
    Guarded s older (m.await env g younger next).2 := by
  have hwaited : Guarded s (younger ++ (g.wait m.process.pid).2 :: older) m :=
    ⟨h.pid, h.held.wait _⟩
  simp only [ShellState.await]
  split
  next => exact hwaited.releases.release
  next n _ => exact (hn n _ hwaited).release

end Guarded

structure Idle (env : Environment) (g : Guard) (c : ShellState) : Prop where
  released : c.release env g = c
  unwaited : (g.wait c.process.pid).2 = g
  refused : g.status = none → (g.wait c.process.pid).1 = .error (.argument .notParent)

theorem idle_of_copy {c : ShellState} (h : g.isParent c.process.pid = false) : Idle env g c where
  released := by
    rw [release, Guard.release_copy h]
  unwaited := (Guard.wait_copy h).1
  refused := (Guard.wait_copy h).2

/-- The guards that a process holds when it forks, and the one that the fork
gives to the child, are nothing to the child or to a child of it: its number is
larger than that of their owner. -/
theorem Guarded.idle {c : ShellState} (h : Guarded s gs m)
    (hg : g ∈ gs ∨ g = Guard.ofChild m.process) (hc : m.process.forked.pid ≤ c.process.pid) :
    Idle env g c := by
  apply idle_of_copy
  have hpid : m.process.pid + 1 ≤ c.process.pid := hc
  rcases hg with hg | rfl
  · have howner := h.held.owner hg
    rw [Guard.isParent, Bool.and_eq_true, beq_iff_eq, ← h.pid] at howner
    rw [Guard.isParent, ← howner.2, Bool.and_eq_false_iff]
    exact .inr (beq_eq_false_iff_ne.mpr (by omega))
  · rfl

theorem runProgram_guarded (command : Text) (arguments : List Text) :
    Guarded s [] (s.runProgram host command arguments).2 := by
  have h := s.runProgram_course host command arguments
  generalize s.runProgram host command arguments = ended at h
  cases h with
  | unfit => exact guarded_refl s
  | unpiped hp => exact (guarded_refl s).makeNotice hp
  | unforked hp hf => exact (((guarded_refl s).makeNotice hp).refused hf).closePipe _
  | @forked notice _ _ _ _ hp hf ha =>
    subst ha
    have hforked := (((guarded_refl s).makeNotice hp).spawned hf).closeEnd notice.writer
    refine Guarded.closeEnd (Guarded.await [] hforked fun n g' hg => ?_) notice.reader
    exact hg.keep_process reportProgram_process

theorem runRedirected_guarded (r : Redirection) (body : ShellState → Outcome × ShellState) :
    Guarded s [] (s.runRedirected host r body).2 := by
  have h := @runRedirected_course body host s r
  generalize s.runRedirected host r body = ended at h
  have hworld (world : World) : Guarded s [] { s with world := world } := ⟨rfl, rfl⟩
  cases h with
  | unwired => exact guarded_refl s
  | @unverified _ _ world => exact (hworld world).keep_process (log_process _ _)
  | @unforked _ _ world _ _ _ hf => exact (hworld world).refused hf
  | @forked _ world _ _ _ _ hf =>
    refine Guarded.await [] ((hworld world).spawned hf) fun n g' hg => ?_
    exact hg.keep_process (log_process _ _)

theorem runPipeline_guarded (left right : ShellState → Outcome × ShellState) :
    Guarded s [] (s.runPipeline host left right).2 := by
  have h := @runPipeline_course left right host s
  generalize s.runPipeline host left right = ended at h
  cases h with
  | unpiped hp => exact (guarded_refl s).makePipe hp
  | unforked hp hw => exact (((guarded_refl s).makePipe hp).refused hw).closePipe _
  | halfForked hp hw hr =>
    exact (((((guarded_refl s).makePipe hp).spawned hw).refused hr).closePipe _).release
  | @forked _ _ reader _ _ _ hp hw hr =>
    have hforked := ((((guarded_refl s).makePipe hp).spawned hw).spawned hr).closePipe
    refine Guarded.await [reader] (hforked _) fun n waited hg => ?_
    exact Guarded.await [] hg fun n' _ hg' => hg'.keep_process (log_process _ _)

end ShellState

/-- No builtin changes the signals of the shell, apart from `exec` with a
command. -/
theorem Builtin.run_signals {b : Builtin} {env : Environment} {arguments : List Text} {sink : Sink}
    {s : ShellState}
    (h : ∀ program rest, b.name :: arguments ≠ exec.name :: program :: rest) :
    (b.run env arguments sink s).2.2.process.signals = s.process.signals := by
  cases b with
  | cd =>
    have hentered {path : Text} {p : Process} (h : s.process.enter s.world path = .ok p) :
        p.signals = s.process.signals := by
      obtain ⟨_, rfl⟩ := Process.enter_ok h
      rfl
    simp only [run, runCd]
    repeat' split
    all_goals first | rfl | exact hentered ‹_›
  | exit =>
    simp only [run, runExit]
    split <;> rfl
  | help =>
    simp only [run, runHelp]
    repeat' split
    all_goals rfl
  | type =>
    simp only [run, runType]
    split <;> rfl
  | exec =>
    cases arguments with
    | nil => rfl
    | cons program rest => exact absurd rfl (h program rest)

namespace ShellState

variable {host : Host} {env : Environment} {s : ShellState}

theorem settle_process (o : Outcome) : (s.settle env o).2.process = s.process := by
  unfold settle
  split
  next => rw [finish_process, log_process]
  next => rfl

theorem runBuiltin_process (b : Builtin) (arguments : List Text) :
    (s.runBuiltin env b arguments).2.process =
      (b.run env arguments (.ofDescriptor 1 s) s).2.2.process := by
  simp only [runBuiltin]
  split <;> rfl

theorem runCommand_guarded {command : Text} {arguments : List Text}
    (h : ∀ program rest, command :: arguments ≠ Builtin.exec.name :: program :: rest) :
    Guarded s [] (s.runCommand host command arguments).2 := by
  unfold runCommand
  refine Guarded.keep_process ?_ (settle_process _)
  have hlog : Guarded s [] (s.log host.toEnvironment .trace
      ("invoking " ++ Text.quotedList (command :: arguments))) :=
    (guarded_refl s).keep_process (log_process _ _)
  split
  next b hb =>
    obtain rfl := Builtin.ofName?_eq_some.mp hb
    refine hlog.keep ?_ ?_
    · rw [runBuiltin_process, Builtin.run_pid]
    · rw [runBuiltin_process, Builtin.run_signals h]
  next => exact hlog.trans (runProgram_guarded command arguments)

theorem invoke_guarded {i : Invocation}
    (h : i.memo = none → ∀ program rest,
      (i.mapWords (Expansion.expand host.home s.process.pid)).words.map Token.text ≠
        Builtin.exec.name :: program :: rest) :
    Guarded s [] (s.invoke host i).state := by
  simp only [invoke]
  split
  next => exact (guarded_refl s).keep_process rfl
  next hm =>
    have hran := @runCommand_guarded host s _ _ (h hm)
    split
    next => exact hran
    next => exact hran

end ShellState

theorem Expression.evaluate_guarded {host : Host} {s : ShellState} {e : Expression}
    (h : ∀ program rest, ¬ e.Runs host.toEnvironment s (Builtin.exec.name :: program :: rest)) :
    s.Guarded [] (e.evaluate host s).state := by
  cases e with
  | command i =>
    exact ShellState.invoke_guarded fun hm program rest hw => h program rest ⟨i, .inl rfl, hm, hw⟩
  | string i =>
    exact ShellState.invoke_guarded fun hm program rest hw => h program rest ⟨i, .inr rfl, hm, hw⟩
  | value n => exact ShellState.guarded_refl s

namespace Statement

variable {host : Host} {t left right : Statement} {s : ShellState}

def ExecFree (host : Host) (t : Statement) (s : ShellState) : Prop :=
  ∀ e s' program rest, t.Reaches host s (.atom e) s' →
    ¬ e.Runs host.toEnvironment s' (Builtin.exec.name :: program :: rest)

theorem ExecFree.first (h : t.ExecFree host s) (hf : t.first? = some left) :
    left.ExecFree host s :=
  fun e s' program rest hr => h e s' program rest (.first hf hr)

theorem ExecFree.next {r : Result} (h : t.ExecFree host s) (hf : t.first? = some left)
    (hl : (left.evaluate host s).outcome = .value r) (hn : t.next? r = some right) :
    right.ExecFree host (left.evaluate host s).state :=
  fun e s' program rest hr => h e s' program rest (.next hf hl hn hr)

theorem evaluate_guarded {t : Statement} {s : ShellState} (h : t.ExecFree host s) :
    s.Guarded [] (t.evaluate host s).state := by
  induction t generalizing s with
  | sequence left right ihl ihr =>
    have hl := ihl (h.first rfl)
    simp only [evaluate]
    split
    next r ho => exact hl.trans (ihr (h.next rfl ho rfl))
    next => exact hl
  | closed inner ih => exact ih (h.first rfl)
  | and left right ihl ihr =>
    have hl := ihl (h.first rfl)
    simp only [evaluate]
    split
    next r ho =>
      split
      next hr => exact hl.trans (ihr (h.next rfl ho (if_pos hr)))
      next => exact hl
    next => exact hl
  | or left right ihl ihr =>
    have hl := ihl (h.first rfl)
    simp only [evaluate]
    split
    next r ho =>
      split
      next => exact hl
      next hr => exact hl.trans (ihr (h.next rfl ho (if_neg hr)))
    next => exact hl
  | not inner ih =>
    have hi := ih (h.first rfl)
    simp only [evaluate]
    split
    next => exact hi.keep_process rfl
    next => exact hi
  | pipeline left right => exact ShellState.runPipeline_guarded _ _
  | redirect r left => exact ShellState.runRedirected_guarded _ _
  | bare r => exact ShellState.runRedirected_guarded _ _
  | atom e => exact Expression.evaluate_guarded fun program rest => h e s program rest (.here _ s)

/-- An evaluation that comes to no `exec` leaves the mask as it was, whatever the
mask, whatever it comes to and whatever the system refuses. A fork adds a guard to
those that are held, or is refused and leaves them; letting go of the youngest
takes it away; as long as there are any, interrupt and suspend are held back
beside what was held back before. A program, or a redirection that passes the
check, waits for its child with the guard of its fork, and a pipeline for its
first child with those of two. If the second fork of a pipeline is refused, the
guard of the first is let go. In a process that was forked none of these guards
does anything, whatever is evaluated there. -/
theorem mask_restored (host : Host) (s : ShellState) :
    (∀ t : Statement, t.ExecFree host s →
      (t.evaluate host s).state.process.signals.blocked = s.process.signals.blocked) ∧
    (∀ gs m, s.Guarded gs m →
      (∀ work g m', m.spawn host work = (.ok g, m') → s.Guarded (g :: gs) m') ∧
      (∀ work failure m', m.spawn host work = (.error failure, m') → s.Guarded gs m') ∧
      (∀ g older, gs = g :: older → s.Guarded older (m.release host.toEnvironment g) ∧
        m.process.signals.blocked = fun x => s.process.signals.blocked x || x.isGuarded) ∧
      ∀ (g : Guard) (c : ShellState) (t : Statement), g ∈ gs ∨ g = Guard.ofChild m.process →
        m.process.forked.pid ≤ c.process.pid →
        c.Idle host.toEnvironment g ∧ (t.evaluate host c).state.Idle host.toEnvironment g) ∧
    (∀ command arguments notice g m m', (command :: arguments).any Text.hasNul = false →
      s.makeNotice host = (.ok notice, m) →
      m.spawn host (ShellState.becomeProgram host.toEnvironment notice command arguments) =
        (.ok g, m') →
      s.Guarded [g] m' ∧ s.runProgram host command arguments =
        ((m'.onProcess fun p => (notice.closeWriter p).2).await host.toEnvironment g []
          (ShellState.reportProgram host.toEnvironment notice command)).map id
            (ShellState.onProcess fun p => (notice.closeReader p).2)) ∧
    (∀ r wiring world body g m', Wiring.ofRedirection r = .ok wiring →
      wiring.verify s.process s.world = .ok world →
      ShellState.spawn host (ShellState.rewired host.toEnvironment wiring body)
        { s with world := world } = (.ok g, m') →
      s.Guarded [g] m' ∧ s.runRedirected host r body =
        m'.await host.toEnvironment g [] fun status m =>
          (m.log host.toEnvironment .debug (r.operator ++ " finished with " ++
            Text.ofNat status)).finish status) ∧
    ∀ left right pipe writer m m', s.makePipe host = (.ok pipe, m) →
      m.spawn host (ShellState.pipelineSide host.toEnvironment pipe
        (pipe.redirectWriter Wiring.standardOutput) left) = (.ok writer, m') →
      (∀ reader m'', m'.spawn host (ShellState.pipelineSide host.toEnvironment pipe
          (pipe.redirectReader Wiring.standardInput) right) = (.ok reader, m'') →
        s.Guarded [reader, writer] (m''.closePipe pipe) ∧ s.runPipeline host left right =
          (m''.closePipe pipe).await host.toEnvironment writer [reader] fun n m =>
            m.await host.toEnvironment reader [] fun n' m =>
              (m.log host.toEnvironment .debug ("pipeline finished: left " ++ Text.ofNat n ++
                ", right " ++ Text.ofNat n')).finish (ShellState.pipelineStatus n n')) ∧
      ∀ failure m'', m'.spawn host (ShellState.pipelineSide host.toEnvironment pipe
          (pipe.redirectReader Wiring.standardInput) right) = (.error failure, m'') →
        s.Guarded [writer] (m''.closePipe pipe) ∧ s.runPipeline host left right =
          (.failed failure, (m''.closePipe pipe).release host.toEnvironment writer) := by
  refine ⟨fun t h => (evaluate_guarded h).held, fun gs m hm => ⟨?_, ?_, ?_, ?_⟩, ?_, ?_, ?_⟩
  · exact fun work g m' hf => hm.spawned hf
  · exact fun work failure m' hf => hm.refused hf
  · rintro g older rfl
    exact ⟨hm.release, hm.held.blocked (by simp)⟩
  · intro g c t hg hc
    have hevaluated : m.process.forked.pid ≤ (t.evaluate host c).state.process.pid := by
      rw [evaluate_pid]
      exact hc
    exact ⟨hm.idle hg hc, hm.idle hg hevaluated⟩
  · intro command arguments notice g m m' hnul hp hf
    refine ⟨((ShellState.guarded_refl s).makeNotice hp).spawned hf, ?_⟩
    simp only [ShellState.runProgram, hnul, hp, hf]
    rfl
  · intro r wiring world body g m' hw hv hf
    have hworld : s.Guarded [] { s with world := world } := ⟨rfl, rfl⟩
    exact ⟨hworld.spawned hf, by simp only [ShellState.runRedirected, hw, hv, hf]⟩
  · intro left right pipe writer m m' hp hw
    have hwriter := ((ShellState.guarded_refl s).makePipe hp).spawned hw
    refine ⟨fun reader m'' hr => ⟨(hwriter.spawned hr).closePipe pipe, ?_⟩,
      fun failure m'' hr => ⟨(hwriter.refused hr).closePipe pipe, ?_⟩⟩
    · simp only [ShellState.runPipeline, hp, hw, hr]
    · simp only [ShellState.runPipeline, hp, hw, hr]

end Statement

def Console.crowded : Host :=
  ⟨Console.environment, ⟨fun request s =>
    if request = .fork ∧ 5 < s.world.openings.length then some ⟨11⟩ else none⟩⟩

/-- In `! exit > a | exec false` the left child opens a file, after which the
right one is not forked. A shell that holds back only terminate still does so, and
holds back nothing else. -/
theorem Statement.mask_restored_around_pipeline :
    ((not (pipeline (redirect (.overwrite none (.word ⟨.command, ['a'], ⟨1, 10⟩⟩))
      (.plain Builtin.exit.name [])) (.plain Builtin.exec.name ["false"]))).evaluate
      Console.crowded (Console.shell.onProcess fun p =>
        p.mapSignals (·.block (· == .terminate)))).outcome =
      .failed (.systemCall "fork" ⟨11⟩) ∧
    ((not (pipeline (redirect (.overwrite none (.word ⟨.command, ['a'], ⟨1, 10⟩⟩))
      (.plain Builtin.exit.name [])) (.plain Builtin.exec.name ["false"]))).evaluate
      Console.crowded (Console.shell.onProcess fun p =>
        p.mapSignals (·.block (· == .terminate)))).state.process.signals.blocked =
      (· == .terminate) := by
  refine ⟨by decide +kernel, ?_⟩
  rw [(mask_restored Console.crowded _).1]
  · funext x
    exact Bool.false_or _
  · intro e s' program rest hr
    cases hr with
    | first hf h =>
      cases hf
      cases h with
      | first hf _ | next hf _ _ _ => cases hf
    | next hf _ hn _ => cases hn

end TinyShell
