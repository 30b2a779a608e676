import TinyShell.Shell.State

/-!
# Hosts

A shell asks its system for pipes and for processes, and may be refused either.
A host is an environment on a system that may refuse; an environment alone
stands for a host on a system that never does.

Some requests are taken to be granted whatever the system: waiting for a child
that ends, copying one open descriptor onto another, closing, and putting a mask
or a disposition back that was there before. Of the two sides of a pipeline the
left one has ended before the right one starts, and a pipe holds whatever is
written to it.
-/

set_option autoImplicit false

namespace TinyShell

inductive SystemCall
  | pipe
  | closeOnExec (fd : Option Nat)
  | nonBlocking (fd : Option Nat)
  | holdSignals
  | fork
deriving DecidableEq, Repr

namespace SystemCall

def name : SystemCall → Text
  | pipe => "pipe"
  | closeOnExec _ | nonBlocking _ => "fcntl"
  | holdSignals => "sigprocmask"
  | fork => "fork"

end SystemCall

/-- Whether a request is refused in a state, and why. -/
structure Kernel where
  refuses : SystemCall → ShellState → Option Errno

namespace Kernel

def reliable : Kernel := ⟨fun _ _ => none⟩

end Kernel

structure Host extends Environment where
  kernel : Kernel

instance : Coe Environment Host := ⟨fun env => ⟨env, .reliable⟩⟩

namespace Host

def refusal (host : Host) (request : SystemCall) (s : ShellState) : Option Failure :=
  (host.kernel.refuses request s).map (Failure.systemCall request.name)

end Host

end TinyShell
