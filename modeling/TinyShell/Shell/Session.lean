import TinyShell.Shell.Evaluation
import TinyShell.Shell.Source
import TinyShell.Statement.Progress

/-!
# Sessions

A session reads statements and evaluates each before it reads the next. A
statement that cannot be read costs the rest of its line and nothing more. The
session ends with the input, or when a statement leaves the shell.
-/

set_option autoImplicit false

namespace TinyShell

structure Session where
  environment : Environment
  prompt : Text

namespace Session

def ask (session : Session) (lines : Nat) (s : ShellState) : ShellState :=
  if session.environment.interactive then Nat.repeat (ShellState.say 1 session.prompt) lines s
  else s

def report (session : Session) (failure : Failure) (s : ShellState) : ShellState :=
  s.log session.environment .error failure.message

def stop (session : Session) (failure : Failure) (status : Nat) (s : ShellState) :
    Nat × ShellState :=
  if failure = .inputClosed then (status, s) else (1, session.report failure s)

/-- What reading on from one queue to another does besides: the lines between
are asked for, and received from the source. -/
def fetch (session : Session) (source : Source) (before after : TokenQueue) (s : ShellState) :
    Source × ShellState :=
  source.receive (after.received - before.received)
    (session.ask (after.asked - before.asked) s)

def run (session : Session) (source : Source) (q : TokenQueue) (status : Nat) (s : ShellState) :
    Nat × ShellState :=
  let queue := source.renew q s
  match _h : queue.read with
  | (.ok none, rest) => (status, (session.fetch source queue rest s).2)
  | (.error failure, rest) =>
    let read := session.fetch source queue rest s
    if _he : failure.endsInput then session.stop failure status read.2
    else session.run read.1 rest.clear 1 (session.report failure read.2)
  | (.ok (some statement), rest) =>
    let read := session.fetch source queue rest s
    let s := read.2.log session.environment .debug ("parsed " ++ statement.render)
    let evaluated := statement.evaluate session.environment s
    match evaluated.outcome with
    | .value _ => session.run read.1 rest evaluated.state.status evaluated.state
    | .leave code => (code, evaluated.state)
    | .failed failure => session.run read.1 rest 1 (session.report failure evaluated.state)
    | .replaced ending => (ending.status, evaluated.state)
termination_by q.size
decreasing_by
  · exact Nat.lt_of_lt_of_le (TokenQueue.size_clear_read_lt _h (by simpa using _he))
      (source.size_renew_le q _)
  · exact Nat.lt_of_lt_of_le (TokenQueue.size_read_lt _h) (source.size_renew_le q _)
  · exact Nat.lt_of_lt_of_le (TokenQueue.size_read_lt _h) (source.size_renew_le q _)

def ofSettings (settings : Settings) (terminals : Terminals) (home search : Option Text)
    (execute : Executor) : Session :=
  ⟨⟨home, search, execute, settings.interactive, settings.logger terminals⟩, settings.prompt⟩

def prepare (session : Session) (s : ShellState) : ShellState :=
  if session.environment.interactive then
    { s with process := s.process.mapSignals SignalState.ignoreInteractive }
  else s

def start (session : Session) (input : Input) (s : ShellState) : Nat × ShellState :=
  session.run .own (TokenQueue.ofInput input) 0 (session.prepare s)

def startShared (session : Session) (s : ShellState) : Nat × ShellState :=
  session.run (.standardInput []) (Source.queue s) 0 (session.prepare s)

end Session

end TinyShell
