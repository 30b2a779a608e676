import TinyShell.Machine.Child
import TinyShell.Machine.Process
import TinyShell.Shell.Environment
import TinyShell.Statement.Basic

/-!
# State of a running shell

The process the shell runs in, the world it shares, and the exit status of the
last statement it finished. How an evaluation can stop is an `Outcome`.
-/

set_option autoImplicit false

namespace TinyShell

structure ShellState where
  process : Process
  world : World
  status : Nat

inductive Outcome
  | value (result : Result)
  | leave (code : Nat)
  | failed (failure : Failure)
  /-- The process was replaced by a program, which has ended. -/
  | replaced (ending : Ending)
deriving DecidableEq, Repr

namespace ShellState

def record (status : Nat) (s : ShellState) : Result × ShellState :=
  (if status = 0 then .success else .failure, { s with status := status })

def finish (status : Nat) (s : ShellState) : Outcome × ShellState :=
  let (result, s) := s.record status
  (.value result, s)

def say (fd : Nat) (text : Text) (s : ShellState) : ShellState :=
  { s with world := s.process.say s.world fd (Utf8.encode text) }

def log (env : Environment) (severity : Severity) (message : Text) (s : ShellState) :
    ShellState :=
  if env.logger.admits severity then s.say 2 (env.logger.line severity message) else s

end ShellState

end TinyShell
