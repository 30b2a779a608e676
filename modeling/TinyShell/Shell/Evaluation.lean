import TinyShell.Shell.Builtin
import TinyShell.Shell.Expansion
import TinyShell.Shell.Subshell
import TinyShell.Shell.Wiring
import TinyShell.Text.Quoted

/-!
# Evaluation

A statement evaluates to a result, and leaves an exit status behind. A builtin
runs in the shell itself; a program, either side of a pipeline and whatever is
redirected run in forked processes. The statement comes back with its words
expanded and its commands remembered, as far as they were reached in this
process.
-/

set_option autoImplicit false

namespace TinyShell

structure Evaluated (α : Type) where
  outcome : Outcome
  form : α
  state : ShellState

namespace Evaluated

def map {α β : Type} (f : α → β) (e : Evaluated α) : Evaluated β :=
  ⟨e.outcome, f e.form, e.state⟩

def effect {α : Type} (e : Evaluated α) : Outcome × ShellState := (e.outcome, e.state)

def ofEffect {α : Type} (form : α) (effect : Outcome × ShellState) : Evaluated α :=
  ⟨effect.1, form, effect.2⟩

end Evaluated

namespace ShellState

def notExecutable : Nat := 127

def becomeProgram (env : Environment) (notice : Pipe) (command : Text) (arguments : List Text)
    (s : ShellState) : Ending × World :=
  let process := (notice.closeReader s.process).2.mapSignals SignalState.reset
  match Execution.replace? env.execute env.search process s.world command arguments with
  | some done => done
  | none => (.ofCode notExecutable, notice.send true process s.world)

def reportProgram (env : Environment) (notice : Pipe) (command : Text) (status : Nat)
    (s : ShellState) : Outcome × ShellState :=
  let received := notice.receive s.process s.world
  let s := { s with world := received.2 }
  let s :=
    if received.1 = some true then s.log env .error (Failure.notFound command).message else s
  (s.log env .debug (command ++ " exited with " ++ Text.ofNat status)).finish status

def runProgram (host : Host) (command : Text) (arguments : List Text) (s : ShellState) :
    Outcome × ShellState :=
  let env := host.toEnvironment
  if (command :: arguments).any Text.hasNul then (.failed (.argument (.nulByte command)), s)
  else
    match s.makeNotice host with
    | (.error failure, s) => (.failed failure, s)
    | (.ok notice, s) =>
      match s.spawn host (becomeProgram env notice command arguments) with
      | (.error failure, s) => (.failed failure, s.closePipe notice)
      | (.ok guard, s) =>
        let s := s.onProcess fun p => (notice.closeWriter p).2
        let ended := s.await env guard [] (reportProgram env notice command)
        (ended.1, ended.2.onProcess fun p => (notice.closeReader p).2)

theorem runProgram_reliable (env : Environment) (command : Text) (arguments : List Text)
    (s : ShellState) :
    s.runProgram env command arguments =
      if (command :: arguments).any Text.hasNul then (.failed (.argument (.nulByte command)), s)
      else
        let opened := s.openPipe
        let forked := opened.2.forkNoted env (becomeProgram env opened.1 command arguments)
        let s := forked.2.onProcess fun p => (opened.1.closeWriter p).2
        let ended := s.await env forked.1 [] (reportProgram env opened.1 command)
        (ended.1, ended.2.onProcess fun p => (opened.1.closeReader p).2) := rfl

def runBuiltin (env : Environment) (builtin : Builtin) (arguments : List Text) (s : ShellState) :
    Outcome × ShellState :=
  let ran := builtin.run env arguments (.ofDescriptor 1 s) s
  let s := ran.2.2
  let s := { s with world := s.process.say s.world 1 ran.2.1.written }
  match ran.1 with
  | .value result => (.value result, { s with status := if result = .success then 0 else 1 })
  | outcome => (outcome, s)

def settle (env : Environment) (outcome : Outcome) (s : ShellState) : Outcome × ShellState :=
  match outcome with
  | .failed (.argument complaint) => (s.log env .error complaint.message).finish 1
  | _ => (outcome, s)

def runCommand (host : Host) (command : Text) (arguments : List Text) (s : ShellState) :
    Outcome × ShellState :=
  let env := host.toEnvironment
  let s := s.log env .trace ("invoking " ++ Text.quotedList (command :: arguments))
  let ran := match Builtin.ofName? command with
    | some builtin => s.runBuiltin env builtin arguments
    | none => s.runProgram host command arguments
  ran.2.settle env ran.1

def invoke (host : Host) (i : Invocation) (s : ShellState) : Evaluated Invocation :=
  match i.memo with
  | some memo => ⟨.value memo.result, i, { s with status := memo.status }⟩
  | none =>
    let i := i.mapWords (Expansion.expand host.home s.process.pid)
    let ran := s.runCommand host i.head.text (i.arguments.map Token.text)
    match ran.1 with
    | .value result => ⟨.value result, { i with memo := some ⟨result, ran.2.status⟩ }, ran.2⟩
    | outcome => ⟨outcome, i, ran.2⟩

def pipelineStatus (left right : Nat) : Nat := if left = 0 then right else left

def pipelineSide (env : Environment) (pipe : Pipe) (connect : Process → Except Failure Process)
    (body : ShellState → Outcome × ShellState) (s : ShellState) : Ending × World :=
  let unpiped (p : Process) : Process := (pipe.close p).2
  finishChild env ((connect s.process).map unpiped) body (s.onProcess unpiped)

/-- Both sides are forked before the first of them is waited for. If the second
cannot be, the first is waited for when its guard is let go. -/
def runPipeline (host : Host) (left right : ShellState → Outcome × ShellState)
    (s : ShellState) : Outcome × ShellState :=
  let env := host.toEnvironment
  match s.makePipe host with
  | (.error failure, s) => (.failed failure, s)
  | (.ok pipe, s) =>
    match s.spawn host (pipelineSide env pipe (pipe.redirectWriter Wiring.standardOutput) left) with
    | (.error failure, s) => (.failed failure, s.closePipe pipe)
    | (.ok writer, s) =>
      match s.spawn host
          (pipelineSide env pipe (pipe.redirectReader Wiring.standardInput) right) with
      | (.error failure, s) => (.failed failure, (s.closePipe pipe).release env writer)
      | (.ok reader, s) =>
        (s.closePipe pipe).await env writer [reader] fun leftStatus s =>
          s.await env reader [] fun rightStatus s =>
            (s.log env .debug ("pipeline finished: left " ++ Text.ofNat leftStatus ++
              ", right " ++ Text.ofNat rightStatus)).finish
                (pipelineStatus leftStatus rightStatus)

theorem runPipeline_reliable (env : Environment) (left right : ShellState → Outcome × ShellState)
    (s : ShellState) :
    s.runPipeline env left right =
      let opened := s.openPipe
      let pipe := opened.1
      let writer := opened.2.forkNoted env
        (pipelineSide env pipe (pipe.redirectWriter Wiring.standardOutput) left)
      let reader := writer.2.forkNoted env
        (pipelineSide env pipe (pipe.redirectReader Wiring.standardInput) right)
      (reader.2.closePipe pipe).await env writer.1 [reader.1] fun leftStatus s =>
        s.await env reader.1 [] fun rightStatus s =>
          (s.log env .debug ("pipeline finished: left " ++ Text.ofNat leftStatus ++ ", right " ++
            Text.ofNat rightStatus)).finish (pipelineStatus leftStatus rightStatus) := rfl

def idle (s : ShellState) : Outcome × ShellState := s.finish 0

def rewired (env : Environment) (wiring : Wiring) (body : ShellState → Outcome × ShellState)
    (s : ShellState) : Ending × World :=
  let wired := wiring.wire s.process s.world
  finishChild env wired.1 body { s with world := wired.2 }

/-- Evaluates `body` in a child with its descriptors rewired. A file that
cannot be used is reported before anything is forked. -/
def runRedirected (host : Host) (redirection : Redirection)
    (body : ShellState → Outcome × ShellState) (s : ShellState) : Outcome × ShellState :=
  let env := host.toEnvironment
  match Wiring.ofRedirection redirection with
  | .error complaint => (.failed (.argument complaint), s)
  | .ok wiring =>
    match wiring.verify s.process s.world with
    | .error (failure, world) =>
      (log env .error failure.message { s with world := world }).finish 1
    | .ok world =>
      match spawn host (rewired env wiring body) { s with world := world } with
      | (.error failure, s) => (.failed failure, s)
      | (.ok guard, s) =>
        s.await env guard [] fun status s =>
          (s.log env .debug (redirection.operator ++ " finished with " ++
            Text.ofNat status)).finish status

theorem runRedirected_reliable (env : Environment) (redirection : Redirection)
    (body : ShellState → Outcome × ShellState) (s : ShellState) :
    s.runRedirected env redirection body =
      match Wiring.ofRedirection redirection with
      | .error complaint => (.failed (.argument complaint), s)
      | .ok wiring =>
        match wiring.verify s.process s.world with
        | .error (failure, world) =>
          (log env .error failure.message { s with world := world }).finish 1
        | .ok world =>
          let forked := forkNoted env (rewired env wiring body) { s with world := world }
          forked.2.await env forked.1 [] fun status s =>
            (s.log env .debug (redirection.operator ++ " finished with " ++
              Text.ofNat status)).finish status := rfl

end ShellState

namespace Redirection

def expand (env : Environment) (s : ShellState) (r : Redirection) : Redirection :=
  r.mapTarget (Expression.mapWords (Expansion.expand env.home s.process.pid))

end Redirection

namespace Expression

def evaluate (host : Host) (e : Expression) (s : ShellState) : Evaluated Expression :=
  match e with
  | command i => (s.invoke host i).map command
  | string i => (s.invoke host i).map string
  | value n => ⟨.value n, value n, s⟩

end Expression

namespace Statement

def evaluate (host : Host) : Statement → ShellState → Evaluated Statement
  | sequence left right, s =>
    let first := evaluate host left s
    match first.outcome with
    | .value _ => (evaluate host right first.state).map (sequence first.form)
    | _ => first.map (sequence · right)
  | closed left, s => (evaluate host left s).map closed
  | and left right, s =>
    let first := evaluate host left s
    match first.outcome with
    | .value result =>
      if result = .success then (evaluate host right first.state).map (and first.form)
      else ⟨.value .failure, and first.form right, first.state⟩
    | _ => first.map (and · right)
  | or left right, s =>
    let first := evaluate host left s
    match first.outcome with
    | .value result =>
      if result = .success then ⟨.value .success, or first.form right, first.state⟩
      else (evaluate host right first.state).map (or first.form)
    | _ => first.map (or · right)
  | not inner, s =>
    let first := evaluate host inner s
    match first.outcome with
    | .value result =>
      .ofEffect (not first.form) (first.state.finish (if result = .success then 1 else 0))
    | _ => first.map not
  | pipeline left right, s =>
    .ofEffect (pipeline left right)
      (s.runPipeline host (fun s => (evaluate host left s).effect)
        (fun s => (evaluate host right s).effect))
  | redirect redirection left, s =>
    .ofEffect (redirect (redirection.expand host.toEnvironment s) left)
      (s.runRedirected host (redirection.expand host.toEnvironment s)
        fun s => (evaluate host left s).effect)
  | bare redirection, s =>
    .ofEffect (bare (redirection.expand host.toEnvironment s))
      (s.runRedirected host (redirection.expand host.toEnvironment s) ShellState.idle)
  | atom expression, s => (expression.evaluate host s).map atom

end Statement

end TinyShell
