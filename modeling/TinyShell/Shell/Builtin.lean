import TinyShell.Shell.State

/-!
# Builtin commands

Commands that the shell runs in its own process. Each gets its arguments
without its name, and writes to a sink that may have limited room.
-/

set_option autoImplicit false

namespace TinyShell

structure Sink where
  limit : Option (Limit Text)
  written : Bytes
deriving Repr

namespace Sink

def write (sink : Sink) (bytes : Bytes) : Option Text × Sink :=
  (Limit.refusal sink.limit bytes,
    ⟨Limit.after sink.limit bytes, sink.written ++ Limit.cut sink.limit bytes⟩)

def ofDescriptor (fd : Nat) (s : ShellState) : Sink :=
  ⟨(s.process.limit s.world fd).map (Limit.map Errno.report), []⟩

end Sink

inductive Builtin
  | cd
  | exit
  | help
  | type
  | exec
deriving DecidableEq, Repr

namespace Builtin

def name : Builtin → Text
  | cd => ['c', 'd']
  | exit => ['e', 'x', 'i', 't']
  | help => ['h', 'e', 'l', 'p']
  | type => ['t', 'y', 'p', 'e']
  | exec => ['e', 'x', 'e', 'c']

def all : List Builtin := [cd, exit, help, type, exec]

def ofName? (name : Text) : Option Builtin := all.find? fun b => b.name == name

def usageLines : List Text :=
  ["usage: statements are read from standard input, one per line",
   "",
   "  a ; b       run a, then b",
   "  a && b      run b only if a succeeded",
   "  a || b      run b only if a failed",
   "  ! a         invert the result of a",
   "  a | b       connect the output of a to the input of b",
   "  ( a ; b )   group statements",
   "  a > f       write output of a to f (2> for errors, >> to append)",
   "  a &> f      write output and errors of a to f (&>> to append)",
   "  a 2>&1      send errors of a to its output",
   "  a < f       read input of a from f",
   "  # text      comment until the end of the line",
   "",
   "builtins:",
   "  cd [dir]        change the working directory (default: home)",
   "  exit            leave the shell",
   "  help            show this text",
   "  type name...    tell how each name would be run",
   "  exec cmd args   replace the shell with cmd"]

def usage : Text := usageLines.flatMap (· ++ ['\n'])

def complain (complaint : Complaint) : Outcome := .failed (.argument complaint)

abbrev Run := Outcome × Sink × ShellState

def runCd (env : Environment) (arguments : List Text) (sink : Sink) (s : ShellState) : Run :=
  let enter (directory : Text) : Run :=
    if Text.hasNul directory then (complain (.nulInDirectory directory), sink, s)
    else
      match s.process.enter s.world directory with
      | .ok process => (.value .success, sink, { s with process := process })
      | .error e => (complain (.cannotEnter directory e), sink, s)
  match arguments with
  | [] =>
    match env.home with
    | some home => enter home
    | none => (complain .noHome, sink, s)
  | [directory] => enter directory
  | _ => (complain (.tooManyArguments cd.name), sink, s)

def runExit (arguments : List Text) (sink : Sink) (s : ShellState) : Run :=
  if arguments.isEmpty then (.leave 0, sink, s)
  else (complain (.tooManyArguments exit.name), sink, s)

def runHelp (arguments : List Text) (sink : Sink) (s : ShellState) : Run :=
  if arguments.isEmpty then
    match sink.write (Utf8.encode usage) with
    | (none, sink) => (.value .success, sink, s)
    | (some reason, sink) => (complain (.output help.name reason), sink, s)
  else (complain (.tooManyArguments help.name), sink, s)

def describe (env : Environment) (s : ShellState) (name : Text) : Text × Bool :=
  if (ofName? name).isSome then (name ++ " is a shell builtin\n", true)
  else
    match env.resolve s.world.tree s.process.directory name with
    | some path => (name ++ " is " ++ path ++ "\n", true)
    | none => (name ++ ": not found\n", false)

def report (env : Environment) (s : ShellState) : List Text → Result → Sink → Outcome × Sink
  | [], result, sink => (.value result, sink)
  | name :: rest, result, sink =>
    let (line, found) := describe env s name
    match sink.write (Utf8.encode line) with
    | (some reason, sink) => (complain (.output type.name reason), sink)
    | (none, sink) => report env s rest (if found then result else .failure) sink

def runType (env : Environment) (arguments : List Text) (sink : Sink) (s : ShellState) : Run :=
  if arguments.isEmpty then (complain (.missingArgument type.name), sink, s)
  else
    let (outcome, sink) := report env s arguments .success sink
    (outcome, sink, s)

def runExec (env : Environment) (arguments : List Text) (sink : Sink) (s : ShellState) : Run :=
  match arguments with
  | [] => (complain (.missingArgument exec.name), sink, s)
  | command :: rest =>
    if arguments.any Text.hasNul then (complain (.nulByte exec.name), sink, s)
    else
      let p := s.process.mapSignals SignalState.reset
      match Execution.replace? env.execute env.search p s.world command rest with
      | some (ending, w) => (.replaced ending, sink, { s with process := p, world := w })
      | none =>
        let p := p.mapSignals (SignalState.restore env.interactive)
        (.failed (.notFound command), sink, { s with process := p })

def run (b : Builtin) (env : Environment) (arguments : List Text) (sink : Sink)
    (s : ShellState) : Run :=
  match b with
  | cd => runCd env arguments sink s
  | exit => runExit arguments sink s
  | help => runHelp arguments sink s
  | type => runType env arguments sink s
  | exec => runExec env arguments sink s

end Builtin

end TinyShell
