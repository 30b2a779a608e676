import TinyShell.Shell.State
import TinyShell.Token.Queue

/-!
# Sources of statements

A session takes its lines from an input that nothing else reads, or from the
standard input, which it shares with the programs it runs. The standard input
is read in blocks, ahead of the lines that are asked for: what is buffered is
the session's own, and what lies behind it goes to whoever reads first. Of lines
that a script adds to itself while it is run, the session reads no more than there
was left to read before.
-/

set_option autoImplicit false

namespace TinyShell

inductive Source
  | own
  | standardInput (buffered : Bytes)
deriving DecidableEq, Repr

namespace Source

def block : Nat := 8192

def ahead (s : ShellState) : Bytes :=
  match s.process.read s.world 0 none with
  | .ok read => read.1
  | .error _ => []

def renew (source : Source) (q : TokenQueue) (s : ShellState) : TokenQueue :=
  match source with
  | own => q
  | standardInput buffered => q.renew (Input.ofBytes (buffered ++ ahead s)).lines

theorem size_renew_le (source : Source) (q : TokenQueue) (s : ShellState) :
    (source.renew q s).size ≤ q.size := by
  cases source with
  | own => exact Nat.le_refl _
  | standardInput buffered => exact q.size_renew_le _

def fetch (wanted : Nat) (s : ShellState) : Bytes × ShellState :=
  match s.process.read s.world 0 (some (block * ((wanted + block - 1) / block))) with
  | .ok read => (read.1, { s with world := read.2 })
  | .error _ => ([], s)

def receive (source : Source) (lines : Nat) (s : ShellState) : Source × ShellState :=
  match source with
  | own => (own, s)
  | standardInput buffered =>
    let used := Input.extent lines (buffered ++ ahead s)
    let fetched := fetch (used - buffered.length) s
    (standardInput ((buffered ++ fetched.1).drop used), fetched.2)

def queue (s : ShellState) : TokenQueue := .ofInput (.ofBytes (ahead s))

end Source

end TinyShell
