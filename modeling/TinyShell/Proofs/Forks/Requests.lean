import TinyShell.Proofs.Forks.Parent

/-!
# Requests that may be refused

A fork that is refused leaves the state as it was, and a pipe that is refused
leaves no descriptor behind. What is refused is told by the name of the call. A
program, a redirection and a pipeline each take one course for every request
that can be refused on their way, and one more if none is.
-/

set_option autoImplicit false

namespace TinyShell

def Failure.IsRefusal (failure : Failure) : Prop := ∃ call reason, failure = .systemCall call reason

theorem Host.isRefusal {host : Host} {request : SystemCall} {s : ShellState} {failure : Failure}
    (h : host.refusal request s = some failure) : failure.IsRefusal := by
  obtain ⟨reason, _, rfl⟩ := Option.map_eq_some_iff.mp h
  exact ⟨_, _, rfl⟩

namespace ShellState

inductive Piped (s : ShellState) : Except Failure Pipe × ShellState → Prop
  | opened : Piped s (.ok s.openPipe.1, s.openPipe.2)
  | refused {failure : Failure} (hf : failure.IsRefusal) : Piped s (.error failure, s)
  | closed {failure : Failure} (hf : failure.IsRefusal) :
      Piped s (.error failure, s.openPipe.2.closePipe s.openPipe.1)

inductive Spawned (env : Environment) (work : ShellState → Ending × World) (s : ShellState) :
    Except Failure Guard × ShellState → Prop
  | forked : Spawned env work s (.ok (s.fork work).1, (s.forkNoted env work).2)
  | refused {failure : Failure} (hf : failure.IsRefusal) : Spawned env work s (.error failure, s)

section Requests

variable (host : Host) (s : ShellState)

theorem makePipe_piped : s.Piped (s.makePipe host) := by
  simp only [makePipe]
  split
  next h => exact .refused (Host.isRefusal h)
  next =>
    split
    next h =>
      rcases Option.or_eq_some_iff.mp h with h | ⟨_, h⟩
      · exact .closed (Host.isRefusal h)
      · exact .closed (Host.isRefusal h)
    next => exact .opened

theorem makeNotice_piped : s.Piped (s.makeNotice host) := by
  have hpiped := s.makePipe_piped host
  unfold makeNotice
  generalize s.makePipe host = made at hpiped
  cases hpiped with
  | opened =>
    simp only
    split
    next h => exact .closed (Host.isRefusal h)
    next => exact .opened
  | refused hf => exact .refused hf
  | closed hf => exact .closed hf

theorem spawn_spawned (work : ShellState → Ending × World) :
    s.Spawned host.toEnvironment work (s.spawn host work) := by
  unfold spawn
  split
  next h => exact .refused (Host.isRefusal h)
  next =>
    split
    next h => exact .refused (Host.isRefusal h)
    next => exact .forked

end Requests

section Alongside

variable {host : Host} {env : Environment} {s m : ShellState} {work : ShellState → Ending × World}

theorem Piped.alongside {made : Except Failure Pipe × ShellState} (h : s.Piped made) :
    s.process.Alongside made.2.process := by
  cases h with
  | opened => exact openPipe_alongside
  | refused => exact .refl _
  | closed => exact openPipe_alongside.trans (closePipe_alongside _)

theorem Spawned.alongside {made : Except Failure Guard × ShellState} (h : s.Spawned env work made) :
    s.process.Alongside made.2.process := by
  cases h with
  | forked => exact forkNoted_alongside work
  | refused => exact .refl _

theorem makePipe_alongside {made : Except Failure Pipe} (h : s.makePipe host = (made, m)) :
    s.process.Alongside m.process := by
  have hmade := (s.makePipe_piped host).alongside
  rw [h] at hmade
  exact hmade

theorem makeNotice_alongside {made : Except Failure Pipe} (h : s.makeNotice host = (made, m)) :
    s.process.Alongside m.process := by
  have hmade := (s.makeNotice_piped host).alongside
  rw [h] at hmade
  exact hmade

theorem spawn_alongside {made : Except Failure Guard} (h : s.spawn host work = (made, m)) :
    s.process.Alongside m.process := by
  have hmade := (s.spawn_spawned host work).alongside
  rw [h] at hmade
  exact hmade

end Alongside

inductive ProgramCourse (host : Host) (command : Text) (arguments : List Text) (s : ShellState) :
    Outcome × ShellState → Prop
  | unfit (h : (command :: arguments).any Text.hasNul = true) :
      ProgramCourse host command arguments s (.failed (.argument (.nulByte command)), s)
  | unpiped {failure : Failure} {m : ShellState} (hp : s.makeNotice host = (.error failure, m)) :
      ProgramCourse host command arguments s (.failed failure, m)
  | unforked {notice : Pipe} {failure : Failure} {m m' : ShellState}
      (hp : s.makeNotice host = (.ok notice, m))
      (hf : m.spawn host (becomeProgram host.toEnvironment notice command arguments) =
        (.error failure, m')) :
      ProgramCourse host command arguments s (.failed failure, m'.closePipe notice)
  | forked {notice : Pipe} {g : Guard} {m m' : ShellState} {ended : Outcome × ShellState}
      (hp : s.makeNotice host = (.ok notice, m))
      (hf : m.spawn host (becomeProgram host.toEnvironment notice command arguments) =
        (.ok g, m'))
      (ha : ended = (m'.onProcess fun p => (notice.closeWriter p).2).await host.toEnvironment g []
        (reportProgram host.toEnvironment notice command)) :
      ProgramCourse host command arguments s
        (ended.1, ended.2.onProcess fun p => (notice.closeReader p).2)

inductive RedirectionCourse (host : Host) (r : Redirection)
    (body : ShellState → Outcome × ShellState) (s : ShellState) : Outcome × ShellState → Prop
  | unwired {complaint : Complaint} (hw : Wiring.ofRedirection r = .error complaint) :
      RedirectionCourse host r body s (.failed (.argument complaint), s)
  | unverified {wiring : Wiring} {failure : Failure} {world : World}
      (hw : Wiring.ofRedirection r = .ok wiring)
      (hv : wiring.verify s.process s.world = .error (failure, world)) :
      RedirectionCourse host r body s
        ((log host.toEnvironment .error failure.message { s with world := world }).finish 1)
  | unforked {wiring : Wiring} {failure : Failure} {world : World} {m : ShellState}
      (hw : Wiring.ofRedirection r = .ok wiring)
      (hv : wiring.verify s.process s.world = .ok world)
      (hf : spawn host (rewired host.toEnvironment wiring body) { s with world := world } =
        (.error failure, m)) :
      RedirectionCourse host r body s (.failed failure, m)
  | forked {wiring : Wiring} {world : World} {g : Guard} {m : ShellState}
      (hw : Wiring.ofRedirection r = .ok wiring)
      (hv : wiring.verify s.process s.world = .ok world)
      (hf : spawn host (rewired host.toEnvironment wiring body) { s with world := world } =
        (.ok g, m)) :
      RedirectionCourse host r body s
        (m.await host.toEnvironment g [] fun status m =>
          (m.log host.toEnvironment .debug (r.operator ++ " finished with " ++
            Text.ofNat status)).finish status)

inductive PipelineCourse (host : Host) (left right : ShellState → Outcome × ShellState)
    (s : ShellState) : Outcome × ShellState → Prop
  | unpiped {failure : Failure} {m : ShellState} (hp : s.makePipe host = (.error failure, m)) :
      PipelineCourse host left right s (.failed failure, m)
  | unforked {pipe : Pipe} {failure : Failure} {m m' : ShellState}
      (hp : s.makePipe host = (.ok pipe, m))
      (hw : m.spawn host (pipelineSide host.toEnvironment pipe
        (pipe.redirectWriter Wiring.standardOutput) left) = (.error failure, m')) :
      PipelineCourse host left right s (.failed failure, m'.closePipe pipe)
  | halfForked {pipe : Pipe} {writer : Guard} {failure : Failure} {m m' m'' : ShellState}
      (hp : s.makePipe host = (.ok pipe, m))
      (hw : m.spawn host (pipelineSide host.toEnvironment pipe
        (pipe.redirectWriter Wiring.standardOutput) left) = (.ok writer, m'))
      (hr : m'.spawn host (pipelineSide host.toEnvironment pipe
        (pipe.redirectReader Wiring.standardInput) right) = (.error failure, m'')) :
      PipelineCourse host left right s
        (.failed failure, (m''.closePipe pipe).release host.toEnvironment writer)
  | forked {pipe : Pipe} {writer reader : Guard} {m m' m'' : ShellState}
      (hp : s.makePipe host = (.ok pipe, m))
      (hw : m.spawn host (pipelineSide host.toEnvironment pipe
        (pipe.redirectWriter Wiring.standardOutput) left) = (.ok writer, m'))
      (hr : m'.spawn host (pipelineSide host.toEnvironment pipe
        (pipe.redirectReader Wiring.standardInput) right) = (.ok reader, m'')) :
      PipelineCourse host left right s
        ((m''.closePipe pipe).await host.toEnvironment writer [reader] fun n m =>
          m.await host.toEnvironment reader [] fun n' m =>
            (m.log host.toEnvironment .debug ("pipeline finished: left " ++ Text.ofNat n ++
              ", right " ++ Text.ofNat n')).finish (pipelineStatus n n'))

variable {left right body : ShellState → Outcome × ShellState}

section Courses

variable (host : Host) (s : ShellState)

theorem runProgram_course (command : Text) (arguments : List Text) :
    ProgramCourse host command arguments s (s.runProgram host command arguments) := by
  simp only [runProgram]
  split
  next h => exact .unfit h
  next =>
    split
    next hp => exact .unpiped hp
    next hp =>
      split
      next hf => exact .unforked hp hf
      next hf => exact .forked hp hf rfl

theorem runRedirected_course (r : Redirection) :
    RedirectionCourse host r body s (s.runRedirected host r body) := by
  simp only [runRedirected]
  split
  next hw => exact .unwired hw
  next hw =>
    split
    next hv => exact .unverified hw hv
    next hv =>
      split
      next hf => exact .unforked hw hv hf
      next hf => exact .forked hw hv hf

theorem runPipeline_course :
    PipelineCourse host left right s (s.runPipeline host left right) := by
  simp only [runPipeline]
  split
  next hp => exact .unpiped hp
  next hp =>
    split
    next hw => exact .unforked hp hw
    next hw =>
      split
      next hr => exact .halfForked hp hw hr
      next hr => exact .forked hp hw hr

end Courses

variable {host : Host} {s : ShellState}

theorem runProgram_alongside {command : Text} {arguments : List Text} :
    s.process.Alongside (s.runProgram host command arguments).2.process := by
  have h := s.runProgram_course host command arguments
  generalize s.runProgram host command arguments = ended at h
  cases h with
  | unfit => exact .refl _
  | unpiped hp => exact makeNotice_alongside hp
  | unforked hp hf =>
    exact (makeNotice_alongside hp).trans ((spawn_alongside hf).trans (closePipe_alongside _))
  | @forked notice _ _ m _ hp hf ha =>
    have hopened : s.process.Alongside (m.onProcess fun p => (notice.closeWriter p).2).process :=
      (makeNotice_alongside hp).trans ((spawn_alongside hf).trans
        (Pipe.closeEnd_alongside notice.writer m.process))
    subst ha
    refine (hopened.trans (await_alongside fun n => ?_)).trans
      (Pipe.closeEnd_alongside notice.reader _)
    rw [reportProgram_process]
    exact .refl _

theorem runRedirected_alongside {r : Redirection} :
    s.process.Alongside (s.runRedirected host r body).2.process := by
  have h := @runRedirected_course body host s r
  generalize s.runRedirected host r body = ended at h
  cases h with
  | unwired => exact .refl _
  | unverified =>
    rw [finish_process, log_process]
    exact .refl _
  | @unforked _ _ world _ _ _ hf => exact spawn_alongside (s := { s with world := world }) hf
  | @forked _ world _ _ _ _ hf =>
    refine (spawn_alongside (s := { s with world := world }) hf).trans (await_alongside fun n => ?_)
    rw [finish_process, log_process]
    exact .refl _

theorem runPipeline_alongside : s.process.Alongside (s.runPipeline host left right).2.process := by
  have h := @runPipeline_course left right host s
  generalize s.runPipeline host left right = ended at h
  cases h with
  | unpiped hp => exact makePipe_alongside hp
  | unforked hp hw =>
    exact (makePipe_alongside hp).trans ((spawn_alongside hw).trans (closePipe_alongside _))
  | halfForked hp hw hr =>
    refine (makePipe_alongside hp).trans ((spawn_alongside hw).trans
      ((spawn_alongside hr).trans ?_))
    exact (closePipe_alongside _).trans (release_alongside _)
  | forked hp hw hr =>
    refine (makePipe_alongside hp).trans ((spawn_alongside hw).trans
      ((spawn_alongside hr).trans ?_))
    refine (closePipe_alongside _).trans (await_alongside fun n => await_alongside fun n' => ?_)
    rw [finish_process, log_process]
    exact .refl _

end ShellState

end TinyShell
