import TinyShell.Machine.Console
import TinyShell.Proofs.Forks.Restored
import TinyShell.Shell.Session

/-!
# Signals over a whole session

Statement after statement, a session goes on with the signals that it found:
each has its disposition, and the same ones are held back. An `exec` that finds
nothing to execute is different. It has prepared the process for the program
already, and what it puts back is what the shell would have set for itself, not
what was there before.
-/

set_option autoImplicit false

namespace TinyShell

namespace SignalState

def abandoned (interactive : Bool) (σ : SignalState) : SignalState := σ.reset.restore interactive

/-- The signals are as the shell sets them: it ignores those of the terminal if
it is interactive, and none of those that are held back around forks is held
back. -/
def Own (interactive : Bool) (σ : SignalState) : Prop :=
  (∀ x : Signal, x.isInteractive = true →
    σ.disposition x = if interactive then .ignored else .standard) ∧
  ∀ x : Signal, x.isGuarded = true → σ.blocked x = false

variable {interactive : Bool} {σ τ : SignalState}

theorem ext_fields (hb : τ.blocked = σ.blocked) (hd : τ.disposition = σ.disposition) : τ = σ := by
  cases σ
  cases τ
  simp_all

theorem abandoned_blocked (interactive : Bool) (σ : SignalState) (x : Signal) :
    (σ.abandoned interactive).blocked x = (σ.blocked x && !x.isGuarded) := by
  cases interactive <;> rfl

theorem abandoned_disposition (interactive : Bool) (σ : SignalState) (x : Signal) :
    (σ.abandoned interactive).disposition x =
      if x.isInteractive then (if interactive then .ignored else .standard)
      else σ.disposition x := by
  cases interactive <;> cases x <;> rfl

theorem abandoned_own (interactive : Bool) (σ : SignalState) :
    (σ.abandoned interactive).Own interactive := by
  constructor
  · intro x hx
    rw [abandoned_disposition, if_pos hx]
  · intro x hx
    rw [abandoned_blocked, hx, Bool.not_true, Bool.and_false]

/-- Nothing is lost just if the signals were as the shell sets them. -/
theorem abandoned_eq_iff : σ.abandoned interactive = σ ↔ σ.Own interactive := by
  constructor
  · intro h
    rw [← h]
    exact abandoned_own interactive σ
  · rintro ⟨hd, hb⟩
    apply ext_fields
    · funext x
      rw [abandoned_blocked]
      cases hx : x.isGuarded with
      | true => rw [hb x hx, Bool.false_and]
      | false => rw [Bool.not_false, Bool.and_true]
    · funext x
      rw [abandoned_disposition]
      split
      next hx => rw [hd x hx]
      next => rfl

theorem abandoned_abandoned (interactive : Bool) (σ : SignalState) :
    (σ.abandoned interactive).abandoned interactive = σ.abandoned interactive :=
  abandoned_eq_iff.mpr (abandoned_own interactive σ)

end SignalState

def Outcome.signals (interactive : Bool) : Outcome → SignalState → SignalState
  | failed (.notFound _), σ => σ.abandoned interactive
  | replaced _, σ => σ.reset
  | _, σ => σ

namespace Outcome

variable {interactive : Bool} {lost : Prop} {o : Outcome} {σ : SignalState}

theorem Kept.signals (h : o.Kept lost) : o.signals interactive σ = σ := by
  rcases h with ⟨r, rfl⟩ | ⟨rfl, _⟩ <;> rfl

theorem failed_signals {failure : Failure} (h : ¬ ∃ command, failure = .notFound command) :
    (failed failure).signals interactive σ = σ := by
  cases failure with
  | notFound command => exact absurd ⟨command, rfl⟩ h
  | _ => rfl

end Outcome

theorem Builtin.run_left {b : Builtin} {env : Environment} {arguments : List Text} {sink : Sink}
    {s : ShellState} :
    (b.run env arguments sink s).2.2.process.signals =
      (b.run env arguments sink s).1.signals env.interactive s.process.signals := by
  by_cases he : ∃ program rest, b = exec ∧ arguments = program :: rest
  · obtain ⟨program, rest, rfl, rfl⟩ := he
    simp only [run, runExec]
    split
    next => rfl
    next => split <;> rfl
  · have hwords (program : Text) (rest : List Text) :
        b.name :: arguments ≠ exec.name :: program :: rest := by
      intro hw
      obtain ⟨hname, harguments⟩ := List.cons.inj hw
      have hb : ofName? b.name = some exec := ofName?_eq_some.mpr hname
      rw [ofName?_eq_some.mpr rfl] at hb
      exact he ⟨program, rest, Option.some.inj hb, harguments⟩
    rw [run_signals hwords]
    rcases @run_cases env b arguments sink s with ⟨r, h⟩ | ⟨complaint, h⟩ | ⟨rfl, rfl, h⟩ |
      ⟨program, rest, hb, ha, _⟩
    · rw [h]; rfl
    · rw [h]; rfl
    · rw [h]; rfl
    · exact absurd ⟨program, rest, hb, ha⟩ he

namespace ShellState

variable {env : Environment} {s : ShellState}

def Leaves (env : Environment) (s : ShellState) (e : Outcome × ShellState) : Prop :=
  e.2.process.signals = e.1.signals env.interactive s.process.signals

/-- Letting go of all guards and putting the dispositions back is enough, unless
there was an `exec`. -/
theorem leaves_of_restored {e : Outcome × ShellState} (hg : s.Guarded [] e.2)
    (hr : s.process.Restored e.2.process)
    (ho : ∀ σ, e.1.signals env.interactive σ = σ) : Leaves env s e := by
  rw [Leaves, ho]
  exact SignalState.ext_fields hg.held hr.disposition

theorem runPipeline_leaves (left right : ShellState → Outcome × ShellState) :
    Leaves env s (s.runPipeline env left right) :=
  leaves_of_restored (runPipeline_guarded left right) (runPipeline_restored left right)
    fun _ => runPipeline_kept.signals

theorem runRedirected_leaves (r : Redirection) (body : ShellState → Outcome × ShellState) :
    Leaves env s (s.runRedirected env r body) := by
  apply leaves_of_restored (runRedirected_guarded r body) (runRedirected_restored r body)
  intro σ
  rcases @runRedirected_kept env s body r with ⟨complaint, _, ho⟩ | hk
  · rw [ho]
    rfl
  · exact hk.signals

theorem runProgram_leaves (command : Text) (arguments : List Text) :
    Leaves env s (s.runProgram env command arguments) := by
  apply leaves_of_restored (runProgram_guarded command arguments)
    (runProgram_restored command arguments)
  intro σ
  rcases @runProgram_kept env s command arguments with ho | hk
  · rw [ho]
    rfl
  · exact hk.signals

theorem runBuiltin_leaves (b : Builtin) (arguments : List Text) :
    Leaves env s (s.runBuiltin env b arguments) := by
  rw [Leaves, runBuiltin_process, runBuiltin_outcome]
  exact Builtin.run_left

theorem leaves_of_logged {severity : Severity} {message : Text} {e : Outcome × ShellState}
    (h : Leaves env (s.log env severity message) e) : Leaves env s e := by
  rw [Leaves, log_process] at h
  exact h

/-- A complaint that becomes a failure asks for as little as a complaint does. -/
theorem settle_leaves {s' : ShellState} {o : Outcome} (h : Leaves env s (o, s')) :
    Leaves env s (s'.settle env o) := by
  rw [Leaves, settle_process, show s'.process.signals = _ from h]
  unfold settle
  split <;> rfl

theorem runCommand_leaves (command : Text) (arguments : List Text) :
    Leaves env s (s.runCommand env command arguments) := by
  simp only [runCommand]
  apply settle_leaves
  apply leaves_of_logged
  split
  next b _ => exact runBuiltin_leaves b arguments
  next => exact runProgram_leaves command arguments

theorem invoke_leaves (i : Invocation) : Leaves env s (s.invoke env i).effect := by
  simp only [invoke]
  split
  next => rfl
  next =>
    have hran := @runCommand_leaves env s
      (i.mapWords (Expansion.expand env.home s.process.pid)).head.text
      ((i.mapWords (Expansion.expand env.home s.process.pid)).arguments.map Token.text)
    split
    next ho =>
      rw [Leaves, ho] at hran
      exact hran
    next => exact hran

end ShellState

open ShellState in
/-- An evaluation keeps the signals of its process, unless it comes to an `exec`
that finds nothing, or replaces the process. -/
theorem Statement.evaluate_leaves {env : Environment} (t : Statement) (s : ShellState) :
    Leaves env s (t.evaluate env s).effect := by
  -- A part that comes to a value has kept the signals for those that follow.
  have follow {s s' : ShellState} {o o' : Outcome} {r : Result} {s'' : ShellState}
      (h : Leaves env s (o, s')) (ho : o = .value r) (h' : Leaves env s' (o', s'')) :
      Leaves env s (o', s'') := by
    subst ho
    rw [Leaves, show s''.process.signals = _ from h', show s'.process.signals = _ from h]
    rfl
  induction t generalizing s with
  | sequence left right ihl ihr =>
    simp only [evaluate]
    split
    next ho => exact follow (ihl s) ho (ihr _)
    next => exact ihl s
  | and left right ihl ihr =>
    simp only [evaluate]
    split
    next ho =>
      split
      next => exact follow (ihl s) ho (ihr _)
      next => exact follow (ihl s) ho rfl
    next => exact ihl s
  | or left right ihl ihr =>
    simp only [evaluate]
    split
    next ho =>
      split
      next => exact follow (ihl s) ho rfl
      next => exact follow (ihl s) ho (ihr _)
    next => exact ihl s
  | closed inner ih => exact ih s
  | not inner ih =>
    simp only [evaluate]
    split
    next ho => exact follow (ih s) ho rfl
    next => exact ih s
  | pipeline left right => exact runPipeline_leaves _ _
  | redirect r inner => exact runRedirected_leaves _ _
  | bare r => exact runRedirected_leaves _ _
  | atom e =>
    cases e with
    | command i => exact invoke_leaves i
    | string i => exact invoke_leaves i
    | value n => rfl

namespace ShellState

variable {env : Environment} {s : ShellState} {command name : Text} {rest : List Text}

def FindsNothing (env : Environment) (command : Text) (rest : List Text) (s : ShellState) : Prop :=
  (command :: rest).any Text.hasNul = false ∧
    Execution.find? env.search s.process
      (s.announced env (Builtin.exec.name :: command :: rest)).world command = none

theorem settle_notFound {o : Outcome} :
    (s.settle env o).1 = .failed (.notFound name) ↔ o = .failed (.notFound name) := by
  unfold settle
  split
  next => simp [finish]
  next => exact Iff.rfl

theorem exec_notFound :
    (s.runCommand env Builtin.exec.name (command :: rest)).1 = .failed (.notFound name) ↔
      name = command ∧ s.FindsNothing env command rest := by
  have hname : Builtin.ofName? Builtin.exec.name = some .exec := Builtin.ofName?_eq_some.mpr rfl
  have hfind (p : Process) (w : World) :
      Execution.find? env.search (p.mapSignals SignalState.reset) w command =
        Execution.find? env.search p w command := Execution.firstOf_mapSignals _ _
  have hannounced : s.log env .trace
      ("invoking " ++ Text.quotedList (Builtin.exec.name :: command :: rest)) =
        s.announced env (Builtin.exec.name :: command :: rest) := rfl
  have hprocess := @announced_process env s (Builtin.exec.name :: command :: rest)
  simp only [runCommand, hname, hannounced, settle_notFound, runBuiltin_outcome, Builtin.run,
    Builtin.runExec, FindsNothing]
  rw [← hprocess]
  cases hnul : (command :: rest).any Text.hasNul with
  | true => simp [Builtin.complain]
  | false =>
    simp only [Bool.false_eq_true, ↓reduceIte, Execution.replace?, hfind, true_and]
    cases Execution.find? env.search _ _ command with
    | none => simp [eq_comm]
    | some found => simp

end ShellState

/-- The shell fails for want of something to execute only at an `exec` that it
reaches itself, and at any such `exec`. -/
theorem Statement.notFound_iff {env : Environment} {t : Statement} {s : ShellState}
    {command : Text} : (t.evaluate env s).outcome = .failed (.notFound command) ↔
      ∃ e s' rest, t.Reaches env s (.atom e) s' ∧
        e.Runs env s' (Builtin.exec.name :: command :: rest) ∧
        s'.FindsNothing env command rest := by
  constructor
  · intro h
    obtain ⟨u, s', hr, hleaf, hu⟩ := abrupt_reached (by rw [h]; rfl)
    rw [h] at hu
    have hcause := @leaf_comesTo env u s' hleaf
    rw [hu] at hcause
    cases hcause with
    | notFound hruns hf =>
      have hran := (congrArg Prod.fst (Expression.evaluate_runs hruns)).symm.trans hu
      exact ⟨_, s', _, hr, hruns, (ShellState.exec_notFound.mp hran).2⟩
  · rintro ⟨e, s', rest, hr, hruns, hf⟩
    have ho : ((atom e).evaluate env s').outcome = .failed (.notFound command) :=
      (congrArg Prod.fst (Expression.evaluate_runs hruns)).trans
        (ShellState.exec_notFound.mpr ⟨rfl, hf⟩)
    rw [reached_abrupt hr (by rw [ho]; rfl), ho]

theorem Source.receive_process (source : Source) (lines : Nat) (s : ShellState) :
    (source.receive lines s).2.process = s.process := by
  cases source with
  | own => rfl
  | standardInput buffered =>
    simp only [receive, fetch]
    split <;> rfl

namespace Session

structure Boundary where
  source : Source
  queue : TokenQueue
  status : Nat
  state : ShellState

namespace Boundary

variable (session : Session) (b : Boundary)

def ready : TokenQueue := b.source.renew b.queue b.state

def fetched : Source × ShellState := session.fetch b.source b.ready b.ready.read.2 b.state

def found (t : Statement) : ShellState :=
  (b.fetched session).2.log session.environment .debug ("parsed " ++ t.render)

def evaluated (t : Statement) : Evaluated Statement :=
  t.evaluate session.environment (b.found session t)

def advance : Except (Nat × ShellState) Boundary :=
  match b.ready.read with
  | (.ok none, _) => .error (b.status, (b.fetched session).2)
  | (.error failure, rest) =>
    if failure.endsInput then .error (session.stop failure b.status (b.fetched session).2)
    else .ok ⟨(b.fetched session).1, rest.clear, 1, session.report failure (b.fetched session).2⟩
  | (.ok (some t), rest) =>
    let after := (b.evaluated session t).state
    match (b.evaluated session t).outcome with
    | .value _ => .ok ⟨(b.fetched session).1, rest, after.status, after⟩
    | .leave code => .error (code, after)
    | .failed failure => .ok ⟨(b.fetched session).1, rest, 1, session.report failure after⟩
    | .replaced ending => .error (ending.status, after)

def Abandons : Prop :=
  ∃ t e s' command rest, b.ready.read.1 = .ok (some t) ∧
    t.Reaches session.environment (b.found session t) (.atom e) s' ∧
    e.Runs session.environment s' (Builtin.exec.name :: command :: rest) ∧
    s'.FindsNothing session.environment command rest

def run : Nat × ShellState := session.run b.source b.queue b.status b.state

inductive Course (start : Boundary) : Nat → Boundary → Prop
  | start : Course start 0 start
  | kept {n : Nat} {b b' : Boundary} (h : Course start n b) (ha : ¬ b.Abandons session)
      (hb : b.advance session = .ok b') : Course start n b'
  | abandoned {n : Nat} {b b' : Boundary} (h : Course start n b) (ha : b.Abandons session)
      (hb : b.advance session = .ok b') : Course start (n + 1) b'

variable {session b} {b' start : Boundary} {n : Nat}

theorem run_eq (b : Boundary) :
    b.run session = match b.advance session with
      | .ok b' => b'.run session
      | .error done => done := by
  unfold run
  rw [Session.run]
  simp only [advance, evaluated, found, fetched, ready]
  split
  next hr => simp only [hr]
  next hr =>
    simp only [hr]
    split <;> rfl
  next t rest hr =>
    simp only [hr]
    generalize t.evaluate session.environment _ = evaluated
    cases ho : evaluated.outcome with
    | value | leave | failed | replaced => simp only

theorem size_advance_lt (h : b.advance session = .ok b') : b'.queue.size < b.queue.size := by
  have hle : b.ready.size ≤ b.queue.size := b.source.size_renew_le b.queue b.state
  unfold advance at h
  split at h
  next => cases h
  next failure rest hr =>
    split at h
    next => cases h
    next he =>
      cases h
      exact Nat.lt_of_lt_of_le (TokenQueue.size_clear_read_lt hr (by simpa using he)) hle
  next t rest hr =>
    have hlt : rest.size < b.queue.size :=
      Nat.lt_of_lt_of_le (TokenQueue.size_read_lt hr) hle
    simp only at h
    split at h
    all_goals cases h
    all_goals exact hlt

theorem Course.next (h : Course session start n b) (hb : b.advance session = .ok b') :
    ∃ m, Course session start m b' := by
  by_cases ha : b.Abandons session
  · exact ⟨n + 1, .abandoned h ha hb⟩
  · exact ⟨n, .kept h ha hb⟩

theorem run_eq_of_advance (hb : b.advance session = .ok b') : b.run session = b'.run session := by
  rw [run_eq, hb]

theorem Course.run_eq (h : Course session start n b) : b.run session = start.run session := by
  induction h with
  | start => rfl
  | kept _ _ hb ih | abandoned _ _ hb ih => rw [← ih, run_eq_of_advance hb]

theorem Course.ends {b : Boundary} {n : Nat} (h : Course session start n b) :
    ∃ n b, Course session start n b ∧ b.advance session = .error (start.run session) := by
  cases hb : b.advance session with
  | error done =>
    refine ⟨n, b, h, ?_⟩
    rw [hb, ← h.run_eq, Boundary.run_eq, hb]
  | ok b' =>
    obtain ⟨m, hm⟩ := h.next hb
    have hlt := size_advance_lt hb
    exact hm.ends
termination_by b.queue.size

end Boundary

variable {session : Session} {s : ShellState}

theorem ask_process (lines : Nat) : (session.ask lines s).process = s.process := by
  unfold ask
  split
  next =>
    induction lines with
    | zero => rfl
    | succ lines ih => exact ih
  next => rfl

theorem report_signals {failure : Failure} :
    (session.report failure s).process.signals = s.process.signals := by
  rw [report, ShellState.log_process]

namespace Boundary

def signals (b : Boundary) : SignalState := b.state.process.signals

variable {b b' start : Boundary} {n : Nat}

theorem fetched_process : (b.fetched session).2.process = b.state.process := by
  unfold fetched fetch
  rw [Source.receive_process, ask_process]

theorem evaluated_signals (t : Statement) :
    (b.evaluated session t).state.process.signals =
      (b.evaluated session t).outcome.signals session.environment.interactive b.signals := by
  have hleft := @Statement.evaluate_leaves session.environment t (b.found session t)
  rw [ShellState.Leaves, found, ShellState.log_process, fetched_process] at hleft
  exact hleft

theorem abandons_iff {t : Statement} (hr : b.ready.read.1 = .ok (some t)) :
    b.Abandons session ↔
      ∃ command, (b.evaluated session t).outcome = .failed (.notFound command) := by
  constructor
  · rintro ⟨u, e, s', command, rest, hu, hexec⟩
    obtain rfl : t = u := by simpa [hr] using hu
    exact ⟨command, Statement.notFound_iff.mpr ⟨e, s', rest, hexec⟩⟩
  · rintro ⟨command, ho⟩
    obtain ⟨e, s', rest, hexec⟩ := Statement.notFound_iff.mp ho
    exact ⟨t, e, s', command, rest, hr, hexec⟩

theorem Abandons.goes_on (h : b.Abandons session) : ∃ b', b.advance session = .ok b' := by
  have ⟨t, _, _, _, _, hr, _⟩ := h
  obtain ⟨command, ho⟩ := (abandons_iff hr).mp h
  cases hread : b.ready.read with
  | mk answer rest =>
    rw [hread] at hr
    obtain rfl : answer = .ok (some t) := hr
    simp only [advance, hread, ho]
    exact ⟨_, rfl⟩

theorem advance_signals (hb : b.advance session = .ok b') :
    b'.signals = b.signals ∧ ¬ b.Abandons session ∨
      b'.signals = b.signals.abandoned session.environment.interactive ∧ b.Abandons session := by
  unfold advance at hb
  split at hb
  next => cases hb
  next failure rest hr =>
    split at hb
    next => cases hb
    next =>
      cases hb
      refine .inl ⟨report_signals.trans (congrArg Process.signals fetched_process), ?_⟩
      rintro ⟨t, _, _, _, _, ht, _⟩
      rw [hr] at ht
      cases ht
  next t rest hr =>
    have hsignals := @evaluated_signals session b t
    rw [abandons_iff (by rw [hr])]
    simp only at hb
    split at hb
    next r ho =>
      cases hb
      rw [ho] at hsignals
      exact .inl ⟨hsignals, by simp [ho]⟩
    next => cases hb
    next failure ho =>
      cases hb
      rw [ho] at hsignals
      by_cases hn : ∃ command, failure = .notFound command
      · obtain ⟨command, rfl⟩ := hn
        exact .inr ⟨report_signals.trans hsignals, command, ho⟩
      · refine .inl ⟨report_signals.trans (hsignals.trans (Outcome.failed_signals hn)), ?_⟩
        rintro ⟨command, ho'⟩
        rw [ho] at ho'
        cases ho'
        exact hn ⟨command, rfl⟩
    next => cases hb

/-- An `exec` that finds nothing costs what there is to lose; after the first
there is nothing left. -/
theorem Course.signals (h : Course session start n b) :
    b.signals = if n = 0 then start.signals
      else start.signals.abandoned session.environment.interactive := by
  induction h with
  | start => rfl
  | kept _ ha hb ih =>
    rcases advance_signals hb with ⟨hkept, _⟩ | ⟨_, habandoned⟩
    · rw [hkept, ih]
    · exact absurd habandoned ha
  | abandoned _ ha hb ih =>
    rcases advance_signals hb with ⟨_, hkept⟩ | ⟨hlost, _⟩
    · exact absurd ha hkept
    · rw [hlost, ih, if_neg (Nat.succ_ne_zero _)]
      split
      next => rfl
      next => exact SignalState.abandoned_abandoned _ _

end Boundary

theorem prepare_disposition (h : session.environment.interactive = true) {x : Signal}
    (hx : x.isInteractive = true) :
    (session.prepare s).process.signals.disposition x = .ignored := by
  rw [prepare, if_pos h]
  exact if_pos hx

end Session

namespace Console

def session (interactive : Bool) : Session := ⟨{ environment with interactive := interactive }, ">"⟩

/-- Before the line `exec x`, in a shell that was started with the signals of the
terminal ignored and with interrupt held back. -/
def inheriting (session : Session) : Session.Boundary :=
  ⟨.own, .ofInput (.ofBytes (Utf8.encode "exec x\n")), 0,
    session.prepare (shell.onProcess fun p =>
      p.mapSignals fun σ => σ.ignoreInteractive.block (· == .interrupt))⟩

open Session.Boundary in
theorem inheriting_course (interactive : Bool) :
    ∃ b, Course (session interactive) (inheriting (session interactive)) 1 b := by
  let start := inheriting (session interactive)
  have hfails : (start.ready.read.1.toOption.join.map fun t =>
      (start.evaluated (session interactive) t).outcome) = some (.failed (.notFound ['x'])) := by
    revert interactive
    decide +kernel
  obtain ⟨t, ht, ho⟩ := Option.map_eq_some_iff.mp hfails
  have hread : start.ready.read.1 = .ok (some t) := by
    cases hr : start.ready.read.1 with
    | error failure =>
      rw [hr] at ht
      cases ht
    | ok found =>
      rw [hr] at ht
      exact congrArg Except.ok ht
  have habandons : start.Abandons (session interactive) := (abandons_iff hread).mpr ⟨_, ho⟩
  obtain ⟨b, hb⟩ := habandons.goes_on
  exact ⟨b, .abandoned .start habandons hb⟩

end Console

namespace Session

open Boundary in
/-- Whatever signals a session finds, it goes from statement to statement with
them until an `exec` finds nothing. From then on it ignores the signals of the
terminal if it is interactive, and otherwise none of them, and it holds back
neither interrupt nor suspend. So an interactive session keeps the dispositions,
and all of the signals are kept just if they are as the shell sets them. -/
theorem signals_at_boundaries (session : Session) (source : Source) (queue : TokenQueue)
    (status : Nat) (s : ShellState) :
    let start : Boundary := ⟨source, queue, status, session.prepare s⟩
    let interactive := session.environment.interactive
    (∃ n b, Course session start n b ∧
      b.advance session = .error (session.run source queue status (session.prepare s))) ∧
    ∀ n b, Course session start n b →
      b.signals = (if n = 0 then start.signals else start.signals.abandoned interactive) ∧
      (b.signals = start.signals ↔ n = 0 ∨ start.signals.Own interactive) ∧
      (interactive = true → b.signals.disposition = start.signals.disposition) := by
  refine ⟨Course.start.ends, fun n b h => ⟨h.signals, ?_, fun hi => ?_⟩⟩
  · rw [h.signals]
    split
    next hn => simp [hn]
    next hn => rw [SignalState.abandoned_eq_iff, or_iff_right hn]
  · rw [h.signals]
    split
    next => rfl
    next =>
      funext x
      rw [SignalState.abandoned_disposition, hi]
      split
      next hx => exact (prepare_disposition hi hx).symm
      next => rfl

open Console Boundary in
/-- An interactive shell that found interrupt held back does not hold it back
any more, but keeps the dispositions. -/
theorem signals_at_boundaries_interactive :
    ∃ b, Course (Console.session true) (inheriting (Console.session true)) 1 b ∧
      b.signals.disposition = (inheriting (Console.session true)).signals.disposition ∧
      b.signals ≠ (inheriting (Console.session true)).signals := by
  obtain ⟨b, hb⟩ := inheriting_course true
  obtain ⟨_, hkept, hdisposition⟩ := (signals_at_boundaries (Console.session true) .own
    (.ofInput (.ofBytes (Utf8.encode "exec x\n"))) 0 _).2 1 b hb
  refine ⟨b, hb, hdisposition rfl, fun h => ?_⟩
  rcases hkept.mp h with hn | ⟨_, hmask⟩
  · cases hn
  · cases hmask .interrupt rfl

open Console Boundary in
/-- A shell that is not interactive loses the dispositions as well. -/
theorem inherited_signals_lost :
    ∃ b, Course (Console.session false) (inheriting (Console.session false)) 1 b ∧
      (∀ x : Signal, x.isInteractive = true →
        (inheriting (Console.session false)).signals.disposition x = .ignored ∧
          b.signals.disposition x = .standard) ∧
      (inheriting (Console.session false)).signals.blocked .interrupt = true ∧
      b.signals.blocked .interrupt = false := by
  obtain ⟨b, hb⟩ := inheriting_course false
  have hlost : b.signals = (inheriting (Console.session false)).signals.abandoned false :=
    hb.signals
  refine ⟨b, hb, fun x hx => ⟨if_pos hx, ?_⟩, rfl, ?_⟩
  · rw [hlost, SignalState.abandoned_disposition, if_pos hx]
    rfl
  · rw [hlost, SignalState.abandoned_blocked]
    rfl

end Session

end TinyShell
