import TinyShell.Failure
import TinyShell.Machine.Process

/-!
# Forked processes

A guard stands for a forked process, seen from either side. Forking holds back
interrupt and suspend; when the parent lets go of the guard, the child has been
waited for and the mask found at the fork comes back. A copy of the guard in
any other process does nothing. A child that a signal without a name has ended
is gone once it was waited for, but its status is never known.
-/

set_option autoImplicit false

namespace TinyShell

inductive Ending
  | exited (code : Nat)
  | killed (signal : Nat)
deriving DecidableEq, Repr

namespace Ending

def ofCode (code : Nat) : Ending := exited (code % 256)

def status : Ending → Nat
  | exited code => code
  | killed signal => 128 + signal

def isKnown : Ending → Bool
  | exited _ => true
  | killed signal => Signal.isNamed signal

end Ending

namespace Process

def forking (p : Process) : Process := p.mapSignals (·.block Signal.isGuarded)

def forked (p : Process) : Process := { p.forking with pid := p.pid + 1, held := p.openings }

end Process

structure Guard where
  owner : Nat
  child : Option Ending
  previous : SignalMask
  status : Option Nat
  reaped : Bool

namespace Guard

def ofParent (p : Process) (ending : Ending) : Guard :=
  ⟨p.pid, some ending, p.signals.blocked, none, false⟩

def ofChild (p : Process) : Guard := ⟨p.pid, none, p.signals.blocked, none, false⟩

def isParent (g : Guard) (pid : Nat) : Bool := g.child.isSome && pid == g.owner

def isChild (g : Guard) : Bool := g.child.isNone

def waitFailure (reason : Errno) : Failure := .systemCall "waitpid" reason

def reap (g : Guard) (ending : Ending) : Except Failure Nat × Guard :=
  if g.reaped then (.error (waitFailure .noChild), g)
  else if ending.isKnown then
    (.ok ending.status, { g with status := some ending.status, reaped := true })
  else (.error (waitFailure .invalidArgument), { g with reaped := true })

def wait (g : Guard) (pid : Nat) : Except Failure Nat × Guard :=
  match g.status, g.child with
  | some status, _ => (.ok status, g)
  | none, some ending =>
    if pid = g.owner then g.reap ending else (.error (.argument .notParent), g)
  | none, none => (.error (.argument .notParent), g)

theorem wait_ofParent (p : Process) {ending : Ending} (h : ending.isKnown = true) :
    (ofParent p ending).wait p.pid =
      (.ok ending.status,
        { ofParent p ending with status := some ending.status, reaped := true }) := by
  simp [wait, reap, ofParent, h]

/-- Lets go of the guard, waiting for a child that was not waited for. Gives
what went wrong with that, and the process with its old mask. -/
def release (g : Guard) (p : Process) : Option Failure × Process :=
  if g.isParent p.pid then
    let restored := p.mapSignals fun s => { s with blocked := g.previous }
    match (g.wait p.pid).1 with
    | .ok _ => (none, restored)
    | .error failure => (some failure, restored)
  else (none, p)

end Guard

end TinyShell
