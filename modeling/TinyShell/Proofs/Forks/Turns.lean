import TinyShell.Proofs.Status.Independence
import TinyShell.Proofs.Status.Pipelines

/-!
# The commands that have their turn

A command may be evaluated in the shell or in a process far below it, and some
commands are not evaluated at all. Those that are take turns: the process that
evaluates one waits for whatever was forked before. What the turns of a
statement are does not depend on the status that it finds, and nothing is
executed but the programs that are started in them.
-/

set_option autoImplicit false

namespace TinyShell

/-- What a process was given on its way to a command: an end of a pipe, or what
a redirection binds, with the opening that was made for it. -/
inductive Frame
  | writes (opening : Nat)
  | reads (opening : Nat)
  | redirects (redirection : Redirection) (opening : Nat)
deriving DecidableEq, Repr

def Frame.redirection? : Frame → Option Redirection
  | redirects r _ => some r
  | writes _ | reads _ => none

/-- The turn of a command, as it stands in the tree: the process that evaluates
it, the world that is found, and all frames around it, the innermost first. -/
structure Turn where
  command : Expression
  process : Process
  world : World
  frames : List Frame

structure Start where
  image : Image
  call : Call
  process : Process
  world : World

namespace Turn

def within (frame : ShellState → Frame) (turns : ShellState → List Turn) :
    Option ShellState → List Turn
  | none => []
  | some child =>
    (turns child).map fun turn => { turn with frames := turn.frames ++ [frame child] }

def redirections (turn : Turn) : List Redirection := turn.frames.filterMap Frame.redirection?

def place (turn : Turn) : Expression × List Redirection := (turn.command, turn.redirections)

end Turn

namespace Statement

/-- The commands of a statement, in the order they are written, each with the
redirections around it, the innermost first. -/
def enclosed : Statement → List (Expression × List Redirection)
  | sequence left right | and left right | or left right | pipeline left right =>
    left.enclosed ++ right.enclosed
  | closed inner | not inner => inner.enclosed
  | redirect r inner => inner.enclosed.map fun (e, rs) => (e, rs ++ [r])
  | bare _ => []
  | atom e => [(e, [])]

/-- The turns that are taken when a statement is evaluated, in order, in the
process itself and in all those below it. -/
def turns (env : Environment) : Statement → ShellState → List Turn
  | sequence left right, s =>
    turns env left s ++
      match (left.evaluate env s).outcome with
      | .value _ => turns env right (left.evaluate env s).state
      | _ => []
  | closed inner, s | not inner, s => turns env inner s
  | and left right, s =>
    turns env left s ++
      match (left.evaluate env s).outcome with
      | .value r => if r = .success then turns env right (left.evaluate env s).state else []
      | _ => []
  | or left right, s =>
    turns env left s ++
      match (left.evaluate env s).outcome with
      | .value r => if r = .success then [] else turns env right (left.evaluate env s).state
      | _ => []
  | pipeline left right, s =>
    let wrote := ShellState.attempt (fun child => (left.evaluate env child).effect) s.writer
    Turn.within (fun _ => .writes (s.world.openings.length + 1)) (turns env left)
        s.writer.toOption ++
      Turn.within (fun _ => .reads s.world.openings.length) (turns env right)
        (s.reader env (wrote.1.conclude env wrote.2).2).toOption
  | redirect r inner, s =>
    -- A file has been opened last of all, for the child to be entered.
    Turn.within (fun child => .redirects r (child.world.openings.length - 1)) (turns env inner)
      (s.entered env r)
  | bare _, _ => []
  | atom e, s => [⟨e, s.process, s.world, []⟩]

end Statement

namespace Execution

def start? (search : Option Text) (p : Process) (w : World) (name : Text)
    (arguments : List Text) : Option Start :=
  (find? search p w name).map fun found =>
    ⟨found.2.2, ⟨found.1, name, arguments, search⟩, p.executing, w⟩

end Execution

def Start.run (execute : Executor) (start : Start) : Ending × World :=
  execute start.image start.call start.process start.world

namespace ShellState

def start? (env : Environment) (command : Text) (arguments : List Text) (s : ShellState) :
    Option Start :=
  let s := s.announced env (command :: arguments)
  match Builtin.ofName? command with
  | none =>
    if (command :: arguments).any Text.hasNul then none
    else
      let child := s.openPipe.2.onProcess Process.forked
      Execution.start? env.search
        ((s.openPipe.1.closeReader child.process).2.mapSignals SignalState.reset) child.world
        command arguments
  | some .exec =>
    match arguments with
    | [] => none
    | program :: rest =>
      if arguments.any Text.hasNul then none
      else
        Execution.start? env.search (s.process.mapSignals SignalState.reset) s.world program rest
  | some _ => none

end ShellState

namespace Turn

def start? (env : Environment) (turn : Turn) : Option Start :=
  match turn.command with
  | .command i | .string i =>
    if i.memo.isSome then none
    else
      let i := i.mapWords (Expansion.expand env.home turn.process.pid)
      ShellState.start? env i.head.text (i.arguments.map Token.text) ⟨turn.process, turn.world, 0⟩
  | .value _ => none

def SameExecution (env : Environment) (execute : Executor) (turns : List Turn) : Prop :=
  ∀ turn ∈ turns, ∀ start, turn.start? env = some start →
    start.run execute = start.run env.execute

end Turn

def Environment.withExecutor (env : Environment) (execute : Executor) : Environment :=
  { env with execute := execute }

theorem Turn.within_places {frame : ShellState → Frame} {turns : ShellState → List Turn}
    {places : List (Expression × List Redirection)} {rs : List Redirection}
    (hf : ∀ child, (frame child).redirection?.toList = rs)
    (h : ∀ s, ((turns s).map Turn.place).Sublist places) (child : Option ShellState) :
    ((within frame turns child).map Turn.place).Sublist
      (places.map fun (e, inner) => (e, inner ++ rs)) := by
  cases child with
  | none => exact List.nil_sublist _
  | some child =>
    have hframe : [frame child].filterMap Frame.redirection? = rs := by
      rw [← hf child]
      cases frame child <;> rfl
    have hplace (turn : Turn) :
        place { turn with frames := turn.frames ++ [frame child] } =
          (turn.place.1, turn.place.2 ++ rs) := by
      simp only [place, redirections, List.filterMap_append, hframe]
    have hwithin : (within frame turns (some child)).map place =
        ((turns child).map place).map fun (e, inner) => (e, inner ++ rs) := by
      simp [within, hplace]
    rw [hwithin]
    exact (h child).map _

namespace Statement

variable {env : Environment} {t : Statement} {s : ShellState}

/-- The turns are taken by commands of the statement, by each at most once, in
the order in which they are written, with the redirections that are written
around them. -/
theorem turns_enclosed (t : Statement) (s : ShellState) :
    ((t.turns env s).map Turn.place).Sublist t.enclosed := by
  have piped (t : Statement) : t.enclosed.map (fun (e, rs) => (e, rs ++ [])) = t.enclosed := by
    simp
  induction t generalizing s with
  | sequence left right ihl ihr =>
    simp only [turns, enclosed, List.map_append]
    refine (ihl s).append ?_
    split
    next => exact ihr _
    next => exact List.nil_sublist _
  | and left right ihl ihr =>
    simp only [turns, enclosed, List.map_append]
    refine (ihl s).append ?_
    split
    next =>
      split
      next => exact ihr _
      next => exact List.nil_sublist _
    next => exact List.nil_sublist _
  | or left right ihl ihr =>
    simp only [turns, enclosed, List.map_append]
    refine (ihl s).append ?_
    split
    next =>
      split
      next => exact List.nil_sublist _
      next => exact ihr _
    next => exact List.nil_sublist _
  | closed inner ih | not inner ih => exact ih s
  | pipeline left right ihl ihr =>
    simp only [turns, enclosed, List.map_append]
    rw [← piped left, ← piped right]
    exact (Turn.within_places (fun _ => rfl) ihl _).append
      (Turn.within_places (fun _ => rfl) ihr _)
  | redirect r inner ih =>
    simp only [turns, enclosed]
    exact @Turn.within_places _ _ _ [r] (fun _ => rfl) ih _
  | bare r => exact List.nil_sublist _
  | atom e => exact List.Sublist.refl _

end Statement

theorem Execution.replace?_congr {execute execute' : Executor} {search : Option Text}
    {p : Process} {w : World} {name : Text} {arguments : List Text}
    (h : ∀ start, start? search p w name arguments = some start →
      start.run execute' = start.run execute) :
    replace? execute' search p w name arguments = replace? execute search p w name arguments := by
  unfold start? at h
  unfold replace?
  cases hf : find? search p w name with
  | none => rfl
  | some found =>
    rw [hf] at h
    exact congrArg some (h _ rfl)

namespace ShellState

variable {env : Environment} {s : ShellState} {execute : Executor}

theorem forkNoted_congr {work work' : ShellState → Ending × World}
    (h : work' (s.onProcess Process.forked) = work (s.onProcess Process.forked)) :
    s.forkNoted env work' = s.forkNoted env work := by
  simp only [forkNoted, fork, h]

theorem Builtin.report_withExecutor (names : List Text) (result : Result) (sink : Sink) :
    Builtin.report (env.withExecutor execute) s names result sink =
      Builtin.report env s names result sink := by
  induction names generalizing result sink with
  | nil => rfl
  | cons name names ih =>
    simp only [Builtin.report, ih]
    rfl

theorem Builtin.run_withExecutor {b : Builtin} {arguments : List Text} {sink : Sink}
    (h : b = .exec → ∀ program rest, arguments = program :: rest →
      ¬arguments.any Text.hasNul = true → ∀ start,
        Execution.start? env.search (s.process.mapSignals SignalState.reset) s.world program rest =
          some start → start.run execute = start.run env.execute) :
    b.run (env.withExecutor execute) arguments sink s = b.run env arguments sink s := by
  cases b with
  | cd | exit | help => rfl
  | type => simp only [Builtin.run, Builtin.runType, Builtin.report_withExecutor]
  | exec =>
    cases arguments with
    | nil => rfl
    | cons program rest =>
      simp only [Builtin.run, Builtin.runExec]
      split
      next => rfl
      next hn =>
        rw [← Execution.replace?_congr (h rfl program rest rfl hn)]
        rfl

/-- A command does not depend on the executor but for the program that it
starts. -/
theorem runCommand_withExecutor {command : Text} {arguments : List Text}
    (h : ∀ start, s.start? env command arguments = some start →
      start.run execute = start.run env.execute) :
    s.runCommand (env.withExecutor execute) command arguments =
      s.runCommand env command arguments := by
  let announced := s.announced env (command :: arguments)
  simp only [start?] at h
  cases hb : Builtin.ofName? command with
  | none =>
    simp only [hb] at h
    have hrun : announced.runProgram (env.withExecutor execute) command arguments =
        announced.runProgram env command arguments := by
      simp only [runProgram_reliable]
      split
      next => rfl
      next hn =>
        rw [if_neg hn] at h
        have hwork : becomeProgram (env.withExecutor execute) announced.openPipe.1 command
            arguments (announced.openPipe.2.onProcess Process.forked) =
              becomeProgram env announced.openPipe.1 command arguments
                (announced.openPipe.2.onProcess Process.forked) := by
          simp only [becomeProgram]
          rw [← Execution.replace?_congr h]
          rfl
        rw [forkNoted_congr hwork]
        rfl
    have hsettled := congrArg (fun ran => ShellState.settle env ran.1 ran.2) hrun
    simp only [runCommand, hb]
    exact hsettled
  | some b =>
    have hrun : b.run (env.withExecutor execute) arguments (.ofDescriptor 1 announced) announced =
        b.run env arguments (.ofDescriptor 1 announced) announced := by
      apply Builtin.run_withExecutor
      rintro rfl program rest rfl hn start hs
      simp only [hb] at h
      rw [if_neg hn] at h
      exact h start hs
    have hbuiltin : announced.runBuiltin (env.withExecutor execute) b arguments =
        announced.runBuiltin env b arguments := by
      simp only [runBuiltin, hrun]
    have hsettled := congrArg (fun ran => ShellState.settle env ran.1 ran.2) hbuiltin
    simp only [runCommand, hb]
    exact hsettled

/-- The status makes no difference for the program that is started. -/
theorem start?_withStatus (command : Text) (arguments : List Text) (n : Nat) :
    (s.withStatus n).start? env command arguments = s.start? env command arguments := by
  have hannounced : (s.withStatus n).announced env (command :: arguments) =
      (s.announced env (command :: arguments)).withStatus n := log_withStatus ..
  simp only [start?, hannounced, withStatus_process, withStatus_world]
  rfl

theorem invoke_withExecutor {i : Invocation} (h : i.memo = none → ∀ start,
      s.start? env (i.mapWords (Expansion.expand env.home s.process.pid)).head.text
        ((i.mapWords (Expansion.expand env.home s.process.pid)).arguments.map Token.text) =
          some start → start.run execute = start.run env.execute) :
    s.invoke (env.withExecutor execute) i = s.invoke env i := by
  cases hm : i.memo with
  | some m => simp only [invoke, hm]
  | none =>
    have hrun := runCommand_withExecutor (h hm)
    simp only [invoke, hm, Environment.withExecutor] at hrun ⊢
    rw [hrun]

section Shared

theorem log_withExecutor : log (env.withExecutor execute) = log env := rfl

theorem forkNoted_withExecutor : forkNoted (env.withExecutor execute) = forkNoted env := rfl

theorem conclude_withExecutor : Outcome.conclude (env.withExecutor execute) =
    Outcome.conclude env := by
  funext s o
  cases o <;> rfl

theorem release_withExecutor : release (env.withExecutor execute) = release env := by
  funext g s
  simp only [release, log_withExecutor]

theorem await_withExecutor : await (env.withExecutor execute) = await env := by
  funext g younger s next
  simp only [await, release_withExecutor]

theorem finishChild_withExecutor : finishChild (env.withExecutor execute) = finishChild env := by
  funext prepared body s
  simp only [finishChild, conclude_withExecutor]

theorem pipelineSide_withExecutor : pipelineSide (env.withExecutor execute) = pipelineSide env := by
  funext pipe connect body s
  simp only [pipelineSide, finishChild_withExecutor]

theorem rewired_withExecutor : rewired (env.withExecutor execute) = rewired env := by
  funext wiring body s
  simp only [rewired, finishChild_withExecutor]

theorem runPipeline_withExecutor :
    runPipeline (env.withExecutor execute) = runPipeline env := by
  funext left right s
  simp only [runPipeline_reliable, pipelineSide_withExecutor, await_withExecutor, log_withExecutor,
    forkNoted_withExecutor]

theorem runRedirected_withExecutor :
    runRedirected (env.withExecutor execute) = runRedirected env := by
  funext r body s
  simp only [runRedirected_reliable, rewired_withExecutor, await_withExecutor, log_withExecutor,
    forkNoted_withExecutor]

end Shared

/-- Of what a pipeline is to do, it does what its sides do once they are
connected. -/
theorem runPipeline_congr {left left' right right' : ShellState → Outcome × ShellState}
    (hl : attempt left' s.writer = attempt left s.writer)
    (hr : attempt right' (s.reader env ((attempt left s.writer).1.conclude env
        (attempt left s.writer).2).2) =
      attempt right (s.reader env ((attempt left s.writer).1.conclude env
        (attempt left s.writer).2).2)) :
    s.runPipeline env left' right' = s.runPipeline env left right := by
  generalize hwrote : attempt left s.writer = wrote at hl hr
  generalize hread : attempt right (s.reader env (wrote.1.conclude env wrote.2).2) = read at hr
  simp only [writer] at hl hwrote
  simp only [reader] at hr hread
  simp only [runPipeline_reliable, forkNoted, fork, pipelineSide_beside, hl, hr, hwrote, hread]

/-- Of what is redirected, that is done which the child does that is entered. -/
theorem runRedirected_congr {r : Redirection} {body body' : ShellState → Outcome × ShellState}
    (h : ∀ child, s.entered env r = some child → body' child = body child) :
    s.runRedirected env (r.expand env s) body' = s.runRedirected env (r.expand env s) body := by
  cases he : s.entered env r with
  | some child => rw [runRedirected_entered he, runRedirected_entered he, h child he]
  | none =>
    simp only [entered] at he
    simp only [runRedirected_reliable]
    split
    next => rfl
    next wiring hw =>
      simp only [hw] at he
      split
      next => rfl
      next world hv =>
        simp only [hv] at he
        split at he
        next failure world' hd =>
          simp only [forkNoted, fork, rewired, onProcess, hd, finishChild]
        next => cases he

end ShellState

namespace Turn

variable {env : Environment} {execute : Executor} {first second : List Turn}

theorem SameExecution.left (h : SameExecution env execute (first ++ second)) :
    SameExecution env execute first := fun turn ht => h turn (List.mem_append_left _ ht)

theorem SameExecution.right (h : SameExecution env execute (first ++ second)) :
    SameExecution env execute second := fun turn ht => h turn (List.mem_append_right _ ht)

theorem SameExecution.child {frame : ShellState → Frame} {turns : ShellState → List Turn}
    {child : ShellState} (h : SameExecution env execute (within frame turns (some child))) :
    SameExecution env execute (turns child) :=
  fun turn ht => h { turn with frames := turn.frames ++ [frame child] } (List.mem_map_of_mem ht)

end Turn

namespace Statement

variable {env : Environment} {t : Statement} {s : ShellState} {execute : Executor}

/-- Nothing is executed but the programs that are started in some turn. -/
theorem evaluate_withExecutor (h : Turn.SameExecution env execute (t.turns env s)) :
    t.evaluate (env.withExecutor execute) s = t.evaluate env s := by
  induction t generalizing s with
  | sequence left right ihl ihr =>
    simp only [turns] at h
    simp only [evaluate, ihl h.left]
    split
    next hl =>
      rw [hl] at h
      rw [ihr h.right]
    next => rfl
  | and left right ihl ihr =>
    simp only [turns] at h
    simp only [evaluate, ihl h.left]
    split
    next hl =>
      simp only [hl] at h
      split
      next hr =>
        rw [if_pos hr] at h
        rw [ihr h.right]
      next => rfl
    next => rfl
  | or left right ihl ihr =>
    simp only [turns] at h
    simp only [evaluate, ihl h.left]
    split
    next hl =>
      simp only [hl] at h
      split
      next => rfl
      next hr =>
        rw [if_neg hr] at h
        rw [ihr h.right]
    next => rfl
  | closed inner ih => simp only [evaluate, ih h]
  | not inner ih => simp only [evaluate, ih h]
  | pipeline left right ihl ihr =>
    simp only [turns] at h
    have hleft : ShellState.attempt
        (fun child => (left.evaluate (env.withExecutor execute) child).effect) s.writer =
          ShellState.attempt (fun child => (left.evaluate env child).effect) s.writer := by
      have hwriter := h.left
      cases hw : s.writer with
      | error done => simp only [ShellState.attempt]
      | ok child =>
        rw [hw] at hwriter
        simp only [ShellState.attempt, ihl hwriter.child]
    have hright := h.right
    simp only [evaluate, ShellState.runPipeline_withExecutor]
    refine congrArg (Evaluated.ofEffect _) (ShellState.runPipeline_congr hleft ?_)
    generalize (ShellState.attempt (fun child => (left.evaluate env child).effect)
      s.writer) = wrote at hright ⊢
    cases hr : s.reader env (wrote.1.conclude env wrote.2).2 with
    | error done => simp only [ShellState.attempt]
    | ok child =>
      rw [hr] at hright
      simp only [ShellState.attempt, ihr hright.child]
  | redirect r inner ih =>
    simp only [turns] at h
    simp only [evaluate, ShellState.runRedirected_withExecutor]
    refine congrArg (Evaluated.ofEffect _) (ShellState.runRedirected_congr fun child hc => ?_)
    rw [hc] at h
    simp only [ih h.child]
  | bare r =>
    simp only [evaluate, ShellState.runRedirected_withExecutor]
    rfl
  | atom e =>
    have hstart := h ⟨e, s.process, s.world, []⟩ (List.mem_singleton_self _)
    have hinvoke {i : Invocation} (he : e = .command i ∨ e = .string i) :
        s.invoke (env.withExecutor execute) i = s.invoke env i := by
      refine ShellState.invoke_withExecutor fun hm start hs => hstart start ?_
      have hstatus : ShellState.start? env _ _ ⟨s.process, s.world, 0⟩ = some start :=
        (ShellState.start?_withStatus _ _ 0).trans hs
      rcases he with rfl | rfl <;> simpa [Turn.start?, hm] using hstatus
    cases e with
    | command i => simp only [evaluate, Expression.evaluate, hinvoke (.inl rfl)]
    | string i => simp only [evaluate, Expression.evaluate, hinvoke (.inr rfl)]
    | value n => rfl

end Statement

section Status

variable {env : Environment} {s : ShellState} {n : Nat}

namespace ShellState

theorem beside_withStatus (s : ShellState) (pipe : Pipe)
    (connect : Process → Except Failure Process) :
    ((s.withStatus n).beside pipe connect).toOption =
      (s.beside pipe connect).toOption.map (withStatus n) := by
  simp only [beside, onProcess, withStatus_process]
  cases connect s.process.forked <;> rfl

theorem entered_withStatus (r : Redirection) :
    (s.withStatus n).entered env r = (s.entered env r).map (withStatus n) := by
  have hexpand : r.expand env (s.withStatus n) = r.expand env s := rfl
  simp only [entered, hexpand, withStatus_process, withStatus_world]
  split
  next => rfl
  next =>
    split
    next => rfl
    next => split <;> rfl

/-- What the child that writes leaves does not depend on the status. -/
theorem wrote_withStatus {left : ShellState → Outcome × ShellState} (hl : Independent left) :
    (attempt left (s.withStatus n).writer).1.conclude env
        (attempt left (s.withStatus n).writer).2 =
      (attempt left s.writer).1.conclude env (attempt left s.writer).2 := by
  have hopened : (s.withStatus n).openPipe = (s.openPipe.1, s.openPipe.2.withStatus n) := rfl
  have hside := @pipelineSide_withStatus env left hl s.openPipe.1
    (s.openPipe.1.redirectWriter Wiring.standardOutput)
    (s.openPipe.2.onProcess Process.forked) n
  simp only [writer, hopened]
  rw [← pipelineSide_beside, ← pipelineSide_beside]
  exact hside

end ShellState

theorem Turn.within_withStatus {frame : ShellState → Frame} {turns : ShellState → List Turn}
    (hf : ∀ child, frame (child.withStatus n) = frame child)
    (h : ∀ child, turns (child.withStatus n) = turns child) (child : Option ShellState) :
    within frame turns (child.map (ShellState.withStatus n)) = within frame turns child := by
  cases child with
  | none => rfl
  | some child => simp only [within, Option.map_some, hf, h]

namespace Statement

/-- The turns do not depend on the status that the evaluation finds. -/
theorem turns_withStatus {t : Statement} (ht : ∀ e ∈ t.atoms, ∀ m, e ≠ .value m)
    (s : ShellState) (n : Nat) : t.turns env (s.withStatus n) = t.turns env s := by
  induction t generalizing s n with
  | sequence left right ihl ihr | and left right ihl ihr | or left right ihl ihr =>
    have hleft : ∀ e ∈ left.atoms, ∀ m, e ≠ .value m := fun e he => ht e (by simp [atoms, he])
    have hl : Alike (left.evaluate env s) (left.evaluate env (s.withStatus n)) :=
      evaluate_alike hleft s n
    simp only [turns, ihl hleft, hl.outcome]
    cases ho : (left.evaluate env s).outcome with
    | value r => rw [hl.eq_of_value ho]
    | leave | failed | replaced => rfl
  | closed inner ih | not inner ih => exact ih ht s n
  | pipeline left right ihl ihr =>
    have hleft : ∀ e ∈ left.atoms, ∀ m, e ≠ .value m := fun e he => ht e (by simp [atoms, he])
    have hright : ∀ e ∈ right.atoms, ∀ m, e ≠ .value m := fun e he => ht e (by simp [atoms, he])
    have hl : Independent fun child => (left.evaluate env child).effect :=
      fun s n => (evaluate_alike hleft s n).effect
    have hwriter : (s.withStatus n).writer.toOption =
        s.writer.toOption.map (ShellState.withStatus n) := s.openPipe.2.beside_withStatus _ _
    have hnoted (world : World) : (s.withStatus n).openPipe.2.noted env world =
        (s.openPipe.2.noted env world).withStatus n :=
      s.openPipe.2.noted_withStatus n world
    have hreader (world : World) : ((s.withStatus n).reader env world).toOption =
        (s.reader env world).toOption.map (ShellState.withStatus n) := by
      simp only [ShellState.reader, hnoted]
      exact (s.openPipe.2.noted env world).beside_withStatus _ _
    simp only [turns, ShellState.wrote_withStatus hl, hwriter, hreader, ShellState.withStatus_world]
    rw [Turn.within_withStatus (fun _ => rfl) fun child => ihl hleft child n,
      Turn.within_withStatus (fun _ => rfl) fun child => ihr hright child n]
  | redirect r inner ih =>
    simp only [turns, ShellState.entered_withStatus]
    exact Turn.within_withStatus (fun _ => rfl) (fun child => ih ht child n) _
  | bare r => rfl
  | atom e => rfl

end Statement

end Status

end TinyShell
