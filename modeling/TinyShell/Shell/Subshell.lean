import TinyShell.Machine.Pipe
import TinyShell.Shell.Host

/-!
# Forked shells

Work that must not disturb the shell is done by a forked process on a copy of
its state. Of that copy nothing comes back; what the parent sees is the world
the child leaves and how the child ended. A system that refuses a pipe or a fork
leaves the shell as it was: descriptors that were opened are closed again, and
signals that were held back for the fork are let through again. What is noted of
a fork comes behind all that the child has written.
-/

set_option autoImplicit false

namespace TinyShell

namespace Outcome

def conclude (env : Environment) (s : ShellState) : Outcome → Ending × World
  | value _ => (.ofCode s.status, s.world)
  | leave code => (.ofCode code, s.world)
  | failed failure => (.ofCode 1, (s.log env .error failure.message).world)
  | replaced ending => (ending, s.world)

end Outcome

namespace ShellState

def onProcess (f : Process → Process) (s : ShellState) : ShellState :=
  { s with process := f s.process }

def fork (work : ShellState → Ending × World) (s : ShellState) : Guard × ShellState :=
  let done := work (s.onProcess Process.forked)
  (Guard.ofParent s.process done.1, { s.onProcess Process.forking with world := done.2 })

def forkNote (s : ShellState) : Text := "forked child " ++ Text.ofNat s.process.forked.pid

def noted (env : Environment) (world : World) (s : ShellState) : ShellState :=
  log env .debug s.forkNote { s.onProcess Process.forking with world := world }

def forkNoted (env : Environment) (work : ShellState → Ending × World) (s : ShellState) :
    Guard × ShellState :=
  let forked := s.fork work
  (forked.1, s.noted env forked.2.world)

def spawn (host : Host) (work : ShellState → Ending × World) (s : ShellState) :
    Except Failure Guard × ShellState :=
  match host.refusal .holdSignals s with
  | some failure => (.error failure, s)
  | none =>
    match host.refusal .fork (s.onProcess Process.forking) with
    | some failure =>
      (.error failure, (s.onProcess Process.forking).onProcess fun p =>
        p.mapSignals fun signals => { signals with blocked := s.process.signals.blocked })
    | none =>
      let forked := s.forkNoted host.toEnvironment work
      (.ok forked.1, forked.2)

def openPipe (s : ShellState) : Pipe × ShellState :=
  let made := Pipe.create s.process s.world
  (made.1, { s with process := made.2.1, world := made.2.2 })

def closePipe (pipe : Pipe) (s : ShellState) : ShellState :=
  s.onProcess fun p => (pipe.close p).2

def makePipe (host : Host) (s : ShellState) : Except Failure Pipe × ShellState :=
  match host.refusal .pipe s with
  | some failure => (.error failure, s)
  | none =>
    let opened := s.openPipe
    match (host.refusal (.closeOnExec opened.1.reader) opened.2).or
        (host.refusal (.closeOnExec opened.1.writer) opened.2) with
    | some failure => (.error failure, opened.2.closePipe opened.1)
    | none => (.ok opened.1, opened.2)

def makeNotice (host : Host) (s : ShellState) : Except Failure Pipe × ShellState :=
  match s.makePipe host with
  | (.error failure, s) => (.error failure, s)
  | (.ok pipe, s) =>
    match host.refusal (.nonBlocking pipe.reader) s with
    | some failure => (.error failure, s.closePipe pipe)
    | none => (.ok pipe, s)

def release (env : Environment) (guard : Guard) (s : ShellState) : ShellState :=
  let released := guard.release s.process
  let s := match released.1 with
    | some failure => s.log env .warning failure.message
    | none => s
  { s with process := released.2 }

/-- Waits for a child and goes on with its status; the guard is let go last. If
the wait fails, the younger guards are let go before it. -/
def await (env : Environment) (guard : Guard) (younger : List Guard) (s : ShellState)
    (next : Nat → ShellState → Outcome × ShellState) : Outcome × ShellState :=
  let waited := guard.wait s.process.pid
  match waited.1 with
  | .error failure =>
    (.failed failure, (younger.foldl (fun s g => s.release env g) s).release env waited.2)
  | .ok status =>
    let gone := next status s
    (gone.1, gone.2.release env waited.2)

theorem await_ofParent (env : Environment) (p : Process) {ending : Ending} (younger : List Guard)
    (s : ShellState) (next : Nat → ShellState → Outcome × ShellState)
    (hp : s.process.pid = p.pid) (hk : ending.isKnown = true) :
    s.await env (Guard.ofParent p ending) younger next =
      ((next ending.status s).1, (next ending.status s).2.release env
        { Guard.ofParent p ending with status := some ending.status, reaped := true }) := by
  rw [await, hp, Guard.wait_ofParent p hk]

def finishChild (env : Environment) (prepared : Except Failure Process)
    (body : ShellState → Outcome × ShellState) (s : ShellState) : Ending × World :=
  match prepared with
  | .error failure => (Outcome.failed failure).conclude env s
  | .ok process =>
    let done := body { s with process := process }
    done.1.conclude env done.2

end ShellState

end TinyShell
