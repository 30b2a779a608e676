import TinyShell.Proofs.Forks.Masks

/-!
# What an evaluation leaves as it was

The shell opens pipes, forks and waits for children. When it is done, each of
its descriptors stands for what it stood for before, and each signal has the
disposition it had, unless a command has changed it on purpose.
-/

set_option autoImplicit false

namespace TinyShell

namespace Process

structure Restored (p p' : Process) : Prop where
  table : p'.descriptors.find? = p.descriptors.find?
  disposition : p'.signals.disposition = p.signals.disposition

variable {p p' p'' : Process}

theorem Restored.refl (p : Process) : p.Restored p := ⟨rfl, rfl⟩

theorem Restored.trans (h : p.Restored p') (h' : p'.Restored p'') : p.Restored p'' :=
  ⟨h'.table.trans h.table, h'.disposition.trans h.disposition⟩

end Process

namespace Pipe

theorem closeEnd_find? (fd : Option Nat) (p : Process) (n : Nat) :
    (closeEnd fd p).descriptors.find? n = if fd = some n then none else p.descriptors.find? n := by
  cases fd with
  | none => rfl
  | some fd =>
    simp only [closeEnd, Process.close, Descriptors.find?_set, Option.some.injEq, eq_comm]

end Pipe

theorem Guard.release_restored (g : Guard) (p : Process) : p.Restored (g.release p).2 := by
  unfold release
  split
  next => split <;> exact ⟨rfl, rfl⟩
  next => exact .refl p

namespace ShellState

variable {env : Environment} {s : ShellState}

theorem release_restored (g : Guard) : s.process.Restored (s.release env g).process := by
  simp only [release]
  exact g.release_restored s.process

theorem foldl_release_restored (gs : List Guard) :
    s.process.Restored (gs.foldl (fun s g => s.release env g) s).process := by
  induction gs generalizing s with
  | nil => exact .refl _
  | cons g gs ih => exact (release_restored g).trans ih

theorem await_restored {g : Guard} {younger : List Guard}
    {next : Nat → ShellState → Outcome × ShellState}
    (hn : ∀ n, s.process.Restored (next n s).2.process) :
    s.process.Restored (s.await env g younger next).2.process := by
  simp only [await]
  split
  next => exact (foldl_release_restored younger).trans (release_restored _)
  next n _ => exact (hn n).trans (release_restored _)

/-- Without the ends of the pipe that was made, every descriptor is as it was. -/
theorem openPipe_restored {p : Process}
    (hclosed : ∀ n, s.openPipe.1.reader = some n ∨ s.openPipe.1.writer = some n →
      p.descriptors.find? n = none)
    (hkept : ∀ n, s.openPipe.1.reader ≠ some n → s.openPipe.1.writer ≠ some n →
      p.descriptors.find? n = s.openPipe.2.process.descriptors.find? n)
    (hd : p.signals.disposition = s.process.signals.disposition) : s.process.Restored p := by
  refine ⟨funext fun n => ?_, hd⟩
  by_cases he : s.openPipe.1.reader = some n ∨ s.openPipe.1.writer = some n
  · rw [hclosed n he]
    exact (Pipe.create_free he).symm
  · obtain ⟨hr, hw⟩ := not_or.mp he
    rw [hkept n hr hw]
    exact (Pipe.create_find? ..).trans ((if_neg hw).trans (if_neg hr))

theorem forkNoted_restored (work : ShellState → Ending × World) :
    s.process.Restored (s.forkNoted env work).2.process := by
  rw [forkNoted_process]
  exact ⟨rfl, rfl⟩

/-- The parent closes both ends of the pipe once both sides have been forked. -/
theorem runPipeline_restored (left right : ShellState → Outcome × ShellState) :
    s.process.Restored (s.runPipeline env left right).2.process := by
  rw [runPipeline_reliable]
  let pipe := s.openPipe.1
  let writer := s.openPipe.2.forkNoted env
    (pipelineSide env pipe (pipe.redirectWriter Wiring.standardOutput) left)
  let reader := writer.2.forkNoted env
    (pipelineSide env pipe (pipe.redirectReader Wiring.standardInput) right)
  have hforked : s.openPipe.2.process.Restored reader.2.process :=
    (forkNoted_restored _).trans (forkNoted_restored _)
  have hfind (n : Nat) : (reader.2.closePipe pipe).process.descriptors.find? n =
      if pipe.writer = some n then none
      else if pipe.reader = some n then none
      else s.openPipe.2.process.descriptors.find? n := by
    show (Pipe.closeEnd pipe.writer (Pipe.closeEnd pipe.reader
      reader.2.process)).descriptors.find? n = _
    rw [Pipe.closeEnd_find?, Pipe.closeEnd_find?, hforked.table]
  have hclosed : s.process.Restored (reader.2.closePipe pipe).process := by
    apply openPipe_restored
    · intro n he
      rw [hfind]
      rcases he with he | he <;> simp [pipe, he]
    · intro n hr hw
      rw [hfind, if_neg hw, if_neg hr]
    · show (pipe.close reader.2.process).2.signals.disposition = _
      rw [Pipe.close_signals, hforked.disposition]
      rfl
  refine hclosed.trans (await_restored fun m => await_restored fun k => ?_)
  simp only [finish_process, log_process]
  exact .refl _

theorem runProgram_restored (command : Text) (arguments : List Text) :
    s.process.Restored (s.runProgram env command arguments).2.process := by
  rw [runProgram_reliable]
  split
  next => exact .refl _
  next =>
    let notice := s.openPipe.1
    let forked := s.openPipe.2.forkNoted env (becomeProgram env notice command arguments)
    let parent := forked.2.onProcess fun p => (notice.closeWriter p).2
    let ended := parent.await env forked.1 [] (reportProgram env notice command)
    have hforked : s.openPipe.2.process.Restored forked.2.process := forkNoted_restored _
    have hwaited : parent.process.Restored ended.2.process := by
      apply await_restored
      intro n
      rw [reportProgram_process]
      exact .refl _
    have hfind (n : Nat) :
        (Pipe.closeEnd notice.reader ended.2.process).descriptors.find? n =
          if notice.reader = some n then none
          else if notice.writer = some n then none
          else s.openPipe.2.process.descriptors.find? n := by
      rw [Pipe.closeEnd_find?, hwaited.table]
      show (if notice.reader = some n then none else
        (Pipe.closeEnd notice.writer forked.2.process).descriptors.find? n) = _
      rw [Pipe.closeEnd_find?, hforked.table]
    apply openPipe_restored
    · intro n he
      refine (hfind n).trans ?_
      rcases he with he | he <;> simp [notice, he]
    · intro n hr hw
      exact (hfind n).trans ((if_neg hr).trans (if_neg hw))
    · show (Pipe.closeEnd notice.reader ended.2.process).signals.disposition = _
      rw [Pipe.closeEnd_signals, hwaited.disposition]
      show (Pipe.closeEnd notice.writer forked.2.process).signals.disposition = _
      rw [Pipe.closeEnd_signals, hforked.disposition]
      rfl

theorem runRedirected_restored (r : Redirection) (body : ShellState → Outcome × ShellState) :
    s.process.Restored (s.runRedirected env r body).2.process := by
  cases hw : Wiring.ofRedirection r with
  | error complaint =>
    simp only [runRedirected, hw]
    exact .refl _
  | ok wiring =>
    simp only [runRedirected_reliable, hw]
    cases wiring.verify s.process s.world with
    | error failure =>
      simp only [finish_process, log_process]
      exact .refl _
    | ok world =>
      refine (@forkNoted_restored env { s with world := world } (rewired env wiring body)).trans
        (await_restored fun n => ?_)
      simp only [finish_process, log_process]
      exact .refl _

end ShellState

theorem Builtin.run_descriptors (b : Builtin) (env : Environment) (arguments : List Text)
    (sink : Sink) (s : ShellState) :
    (b.run env arguments sink s).2.2.process.descriptors = s.process.descriptors := by
  cases b with
  | cd =>
    have hentered {path : Text} {p : Process} (h : s.process.enter s.world path = .ok p) :
        p.descriptors = s.process.descriptors := by
      obtain ⟨_, rfl⟩ := Process.enter_ok h
      rfl
    simp only [run, runCd]
    repeat' split
    all_goals first | rfl | exact hentered ‹_›
  | exit =>
    simp only [run, runExit]
    split <;> rfl
  | help =>
    simp only [run, runHelp]
    repeat' split
    all_goals rfl
  | type =>
    simp only [run, runType]
    split <;> rfl
  | exec =>
    simp only [run, runExec]
    repeat' split
    all_goals rfl

namespace ShellState

variable {env : Environment} {s : ShellState}

def table (s : ShellState) : Table := s.process.descriptors.find?

theorem runCommand_table (command : Text) (arguments : List Text) :
    (s.runCommand env command arguments).2.table = s.table := by
  simp only [runCommand, table, settle_process]
  split
  next b _ =>
    rw [runBuiltin_process, Builtin.run_descriptors, log_process]
  next =>
    rw [(runProgram_restored command arguments).table, log_process]

theorem invoke_table (i : Invocation) : (s.invoke env i).state.table = s.table := by
  simp only [invoke]
  split
  next => rfl
  next => split <;> exact runCommand_table _ _

end ShellState

/-- Whatever an evaluation comes to, all descriptors of the process that did it
stand for what they stood for. -/
theorem Statement.evaluate_table {env : Environment} (t : Statement) (s : ShellState) :
    (t.evaluate env s).state.table = s.table := by
  induction t generalizing s with
  | sequence left right ihl ihr =>
    simp only [evaluate]
    split
    next => exact (ihr _).trans (ihl s)
    next => exact ihl s
  | and left right ihl ihr =>
    simp only [evaluate]
    split
    next =>
      split
      next => exact (ihr _).trans (ihl s)
      next => exact ihl s
    next => exact ihl s
  | or left right ihl ihr =>
    simp only [evaluate]
    split
    next =>
      split
      next => exact ihl s
      next => exact (ihr _).trans (ihl s)
    next => exact ihl s
  | closed inner ih => exact ih s
  | not inner ih =>
    simp only [evaluate]
    split <;> exact ih s
  | pipeline left right => exact (ShellState.runPipeline_restored _ _).table
  | redirect r inner => exact (ShellState.runRedirected_restored _ _).table
  | bare r => exact (ShellState.runRedirected_restored _ _).table
  | atom e =>
    cases e with
    | command i => exact ShellState.invoke_table i
    | string i => exact ShellState.invoke_table i
    | value n => rfl

end TinyShell
