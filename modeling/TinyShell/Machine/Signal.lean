import TinyShell.Text.Basic

/-!
# Signals

Of the signals a terminal can send, an interactive shell ignores interrupt,
suspend and quit; around every fork interrupt and suspend are held back. Other
signals matter by their number only: whether they end the process that gets
one, and what is said about a process they ended.
-/

set_option autoImplicit false

namespace TinyShell

inductive Signal
  | interrupt
  | quit
  | suspend
  | terminate
deriving DecidableEq, Repr

namespace Signal

def all : List Signal := [interrupt, quit, suspend, terminate]

def name : Signal → Text
  | interrupt => "SIGINT"
  | quit => "SIGQUIT"
  | suspend => "SIGTSTP"
  | terminate => "SIGTERM"

def isInteractive : Signal → Bool
  | interrupt | quit | suspend => true
  | terminate => false

def isGuarded : Signal → Bool
  | interrupt | suspend => true
  | quit | terminate => false

def highest : Nat := 64

def lastNamed : Nat := 31

def isNamed (number : Nat) : Bool := 1 ≤ number && number ≤ lastNamed

def customary : Nat := 15

/-- What a program outlives that makes no provision for it: a broken pipe,
which the shell ignores for all its children, and what does not end a process
in the first place, such as news of a child or of a window. -/
def outlived : List Nat := [13, 17, 18, 19, 20, 21, 22, 23, 28]

def endsProgram (number : Nat) : Bool :=
  1 ≤ number && number ≤ highest && !outlived.contains number

def obituaries : List (Nat × String) :=
  [(1, "Hangup"), (3, "Quit"), (4, "Illegal instruction"), (5, "Trace/breakpoint trap"),
   (6, "Aborted"), (7, "Bus error"), (8, "Floating point exception"), (9, "Killed"),
   (10, "User defined signal 1"), (11, "Segmentation fault"), (12, "User defined signal 2"),
   (14, "Alarm clock"), (15, "Terminated"), (16, "Stack fault"),
   (24, "CPU time limit exceeded"), (25, "File size limit exceeded"),
   (26, "Virtual timer expired"), (27, "Profiling timer expired"), (29, "I/O possible"),
   (30, "Power failure"), (31, "Bad system call")]

def firstFree : Nat := 34

def obituary (number : Nat) : Option Text :=
  if isNamed number then (obituaries.lookup number).map Text.ofString
  else if number < firstFree then some ("Unknown signal " ++ Text.ofNat number)
  else some ("Real-time signal " ++ Text.ofNat (number - firstFree))

end Signal

inductive Disposition
  | standard
  | ignored
deriving DecidableEq, Repr

abbrev SignalMask := Signal → Bool

structure SignalState where
  blocked : SignalMask
  disposition : Signal → Disposition

namespace SignalState

def initial : SignalState := ⟨fun _ => false, fun _ => .standard⟩

def block (signals : SignalMask) (s : SignalState) : SignalState :=
  { s with blocked := fun x => s.blocked x || signals x }

def unblock (signals : SignalMask) (s : SignalState) : SignalState :=
  { s with blocked := fun x => s.blocked x && !signals x }

def setInteractive (d : Disposition) (s : SignalState) : SignalState :=
  { s with disposition := fun x => if x.isInteractive then d else s.disposition x }

def ignoreInteractive (s : SignalState) : SignalState := s.setInteractive .ignored

def reset (s : SignalState) : SignalState :=
  (s.setInteractive .standard).unblock Signal.isGuarded

def restore (interactive : Bool) (s : SignalState) : SignalState :=
  if interactive then s.ignoreInteractive else s.setInteractive .standard

end SignalState

end TinyShell
