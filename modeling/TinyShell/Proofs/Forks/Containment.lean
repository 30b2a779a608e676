import TinyShell.Proofs.Forks.Requests

/-!
# What cuts an evaluation short

An evaluation that does not come to a value has been cut short by a statement
that it reached in the same process: by an `exit`, by an `exec` that found
nothing to execute, or by a redirection of a wrong descriptor. Nothing of the
kind crosses a fork.
-/

set_option autoImplicit false

namespace TinyShell

namespace Statement

/-- The part that is evaluated first, if any part is evaluated in the same
process. The parts of a pipeline or a redirection are evaluated by children. -/
def first? : Statement → Option Statement
  | sequence left _ | closed left | and left _ | or left _ | not left => some left
  | pipeline _ _ | redirect _ _ | bare _ | atom _ => none

def next? : Statement → Result → Option Statement
  | sequence _ right, _ => some right
  | and _ right, r => if r = .success then some right else none
  | or _ right, r => if r = .success then none else some right
  | _, _ => none

/-- Evaluating the first statement in the first state comes, in the same
process, to evaluating the second in the second. -/
inductive Reaches (host : Host) : Statement → ShellState → Statement → ShellState → Prop
  | here (t : Statement) (s : ShellState) : Reaches host t s t s
  | first {t left u : Statement} {s s' : ShellState} (hf : t.first? = some left)
      (h : Reaches host left s u s') : Reaches host t s u s'
  | next {t left right u : Statement} {s s' : ShellState} {r : Result}
      (hf : t.first? = some left) (hl : (left.evaluate host s).outcome = .value r)
      (hn : t.next? r = some right) (h : Reaches host right (left.evaluate host s).state u s') :
      Reaches host t s u s'

end Statement

def Outcome.isAbrupt : Outcome → Bool
  | value _ => false
  | _ => true

theorem Outcome.value_of_not_abrupt {o : Outcome} (h : o.isAbrupt = false) : ∃ r, o = .value r := by
  cases o with
  | value r => exact ⟨r, rfl⟩
  | leave | failed | replaced => cases h

namespace Statement

variable {host : Host} {t u left right : Statement} {s s' : ShellState} {r : Result}

theorem sizeOf_first (hf : t.first? = some left) : sizeOf left < sizeOf t := by
  cases t <;> cases hf <;> simp <;> omega

theorem sizeOf_next (hn : t.next? r = some right) : sizeOf right < sizeOf t := by
  cases t <;> simp only [next?] at hn <;> grind

theorem evaluate_first (hf : t.first? = some left)
    (h : (left.evaluate host s).outcome.isAbrupt = true) :
    (t.evaluate host s).outcome = (left.evaluate host s).outcome := by
  cases ho : (left.evaluate host s).outcome with
  | value r =>
    rw [ho] at h
    cases h
  | leave | failed | replaced =>
    cases t <;> cases hf <;> simp only [evaluate, ho, Evaluated.map]

theorem evaluate_next (hf : t.first? = some left) (hl : (left.evaluate host s).outcome = .value r)
    (hn : t.next? r = some right) :
    (t.evaluate host s).outcome = (right.evaluate host (left.evaluate host s).state).outcome := by
  cases t with
  | sequence =>
    cases hf
    cases hn
    simp only [evaluate, hl, Evaluated.map]
  | and | or =>
    cases hf
    simp only [next?] at hn
    split at hn <;> cases hn
    simp only [evaluate, *, ↓reduceIte, Evaluated.map]
  | closed | not => cases hn
  | pipeline | redirect | bare | atom => cases hf

theorem evaluate_last (hf : t.first? = some left) (hl : (left.evaluate host s).outcome = .value r)
    (hn : t.next? r = none) : (t.evaluate host s).outcome.isAbrupt = false := by
  cases t with
  | sequence => cases hn
  | and | or =>
    cases hf
    simp only [next?] at hn
    split at hn <;> cases hn
    simp only [evaluate, *, ↓reduceIte, Outcome.isAbrupt]
  | closed =>
    cases hf
    simp only [evaluate, hl, Evaluated.map, Outcome.isAbrupt]
  | not =>
    cases hf
    simp only [evaluate, hl]
    rfl
  | pipeline | redirect | bare | atom => cases hf

/-- What is cut short was cut short by a statement without such parts. -/
theorem abrupt_reached {t : Statement} {s : ShellState}
    (h : (t.evaluate host s).outcome.isAbrupt = true) :
    ∃ u s', t.Reaches host s u s' ∧ u.first? = none ∧
      (u.evaluate host s').outcome = (t.evaluate host s).outcome := by
  cases hf : t.first? with
  | none => exact ⟨t, s, .here t s, hf, rfl⟩
  | some left =>
    have hleft := sizeOf_first hf
    cases hl : (left.evaluate host s).outcome.isAbrupt with
    | true =>
      obtain ⟨u, s', hr, hleaf, hu⟩ := abrupt_reached hl
      exact ⟨u, s', .first hf hr, hleaf, hu.trans (evaluate_first hf hl).symm⟩
    | false =>
      obtain ⟨r, ho⟩ := Outcome.value_of_not_abrupt hl
      cases hn : t.next? r with
      | none =>
        rw [evaluate_last hf ho hn] at h
        cases h
      | some right =>
        have hright := sizeOf_next hn
        rw [evaluate_next hf ho hn] at h ⊢
        obtain ⟨u, s', hr, hleaf, hu⟩ := abrupt_reached h
        exact ⟨u, s', .next hf ho hn hr, hleaf, hu⟩
termination_by sizeOf t

/-- What cuts a statement short cuts short whatever has come to it. -/
theorem reached_abrupt (hr : t.Reaches host s u s')
    (h : (u.evaluate host s').outcome.isAbrupt = true) :
    (t.evaluate host s).outcome = (u.evaluate host s').outcome := by
  induction hr with
  | here => rfl
  | first hf _ ih => rw [evaluate_first hf (by rw [ih h]; exact h), ih h]
  | next hf hl hn _ ih => rw [evaluate_next hf hl hn, ih h]

end Statement

theorem Builtin.ofName?_eq_some {name : Text} {b : Builtin} :
    ofName? name = some b ↔ name = b.name := by
  constructor
  · intro h
    have hfound : all.find? (fun b => b.name == name) = some b := h
    have hname := List.find?_some hfound
    exact (beq_iff_eq.mp hname).symm
  · rintro rfl
    cases b <;> decide

namespace Execution

variable {p : Process} {w : World}

theorem firstOf_mapSignals (f : SignalState → SignalState) (paths : List Text) :
    firstOf (p.mapSignals f) w paths = firstOf p w paths := by
  induction paths with
  | nil => rfl
  | cons path paths ih =>
    have himage : imageAt (p.mapSignals f) w path = imageAt p w path := rfl
    simp only [firstOf, himage, ih]

theorem find?_of_replace {f : SignalState → SignalState} {execute : Executor}
    {search : Option Text} {name : Text} {arguments : List Text}
    (h : replace? execute search (p.mapSignals f) w name arguments = none) :
    find? search p w name = none := by
  unfold replace? at h
  split at h
  next hf => rwa [find?, firstOf_mapSignals] at hf
  next => cases h

end Execution

namespace Builtin

variable {env : Environment} {b : Builtin} {arguments : List Text} {sink : Sink} {s : ShellState}

theorem report_cases (names : List Text) (result : Result) :
    (∃ r, (report env s names result sink).1 = .value r) ∨
      ∃ complaint, (report env s names result sink).1 = complain complaint := by
  induction names generalizing result sink with
  | nil => exact .inl ⟨result, rfl⟩
  | cons name names ih =>
    simp only [report]
    split
    next => exact .inr ⟨_, rfl⟩
    next => exact ih _

/-- Builtins come to a value or complain about their arguments, apart from
`exit` without any and from `exec` with some. -/
theorem run_cases :
    (∃ r, (b.run env arguments sink s).1 = .value r) ∨
    (∃ complaint, (b.run env arguments sink s).1 = complain complaint) ∨
    (b = exit ∧ arguments = [] ∧ (b.run env arguments sink s).1 = .leave 0) ∨
    ∃ command rest, b = exec ∧ arguments = command :: rest ∧
      ((∃ ending, (b.run env arguments sink s).1 = .replaced ending ∧
          (ending.isKnown = false → env.Untold)) ∨
        Execution.find? env.search s.process s.world command = none ∧
          (b.run env arguments sink s).1 = .failed (.notFound command)) := by
  cases b with
  | cd =>
    simp only [run, runCd]
    repeat' split
    all_goals first | exact .inl ⟨_, rfl⟩ | exact .inr (.inl ⟨_, rfl⟩)
  | exit =>
    cases arguments with
    | nil => exact .inr (.inr (.inl ⟨rfl, rfl, rfl⟩))
    | cons a rest => exact .inr (.inl ⟨_, rfl⟩)
  | help =>
    simp only [run, runHelp]
    repeat' split
    all_goals first | exact .inl ⟨_, rfl⟩ | exact .inr (.inl ⟨_, rfl⟩)
  | type =>
    simp only [run, runType]
    split
    next => exact .inr (.inl ⟨_, rfl⟩)
    next =>
      rcases report_cases arguments .success with h | h
      · exact .inl h
      · exact .inr (.inl h)
  | exec =>
    cases arguments with
    | nil => exact .inr (.inl ⟨_, rfl⟩)
    | cons command rest =>
      simp only [run, runExec]
      split
      next => exact .inr (.inl ⟨_, rfl⟩)
      next =>
        refine .inr (.inr (.inr ⟨command, rest, trivial, rfl, ?_⟩))
        split
        next ending _ hr => exact .inl ⟨ending, rfl, Environment.untold_of_replace hr⟩
        next hr => exact .inr ⟨Execution.find?_of_replace hr, rfl⟩

end Builtin

namespace ShellState

variable {env : Environment} {s : ShellState} {command : Text} {arguments : List Text}

def announced (env : Environment) (words : List Text) (s : ShellState) : ShellState :=
  s.log env .trace ("invoking " ++ Text.quotedList words)

theorem announced_process (words : List Text) : (s.announced env words).process = s.process :=
  log_process _ _

theorem runBuiltin_outcome (b : Builtin) :
    (s.runBuiltin env b arguments).1 = (b.run env arguments (.ofDescriptor 1 s) s).1 := by
  simp only [runBuiltin]
  split
  next h => exact h.symm
  next => rfl

/-- What words can come to: a value, or a program that cannot be waited for;
`exit` alone leaves, and `exec` with a command replaces the process or finds
nothing. -/
inductive Ran (env : Environment) (s : ShellState) : List Text → Outcome → Prop
  | kept {words : List Text} {o : Outcome} (h : o.Kept env.Untold) : Ran env s words o
  | exit : Ran env s [Builtin.exit.name] (.leave 0)
  | replaced {command : Text} {arguments : List Text} {ending : Ending}
      (hk : ending.isKnown = false → env.Untold) :
      Ran env s (Builtin.exec.name :: command :: arguments) (.replaced ending)
  | notFound {command : Text} {arguments : List Text}
      (hf : Execution.find? env.search s.process
        (s.announced env (Builtin.exec.name :: command :: arguments)).world command = none) :
      Ran env s (Builtin.exec.name :: command :: arguments) (.failed (.notFound command))

theorem settle_ran {words : List Text} {o : Outcome} {s' : ShellState} (h : Ran env s words o) :
    Ran env s words (s'.settle env o).1 := by
  cases h with
  | kept h =>
    rcases h with ⟨r, rfl⟩ | ⟨rfl, hl⟩
    · exact .kept (.inl ⟨r, rfl⟩)
    · exact .kept (.inr ⟨rfl, hl⟩)
  | exit => exact .exit
  | replaced hk => exact .replaced hk
  | notFound hf => exact .notFound hf

theorem settle_complaint {words : List Text} {complaint : Complaint} {s' : ShellState} :
    Ran env s words (s'.settle env (.failed (.argument complaint))).1 :=
  .kept (finish_kept 1)

theorem runCommand_ran :
    Ran env s (command :: arguments) (s.runCommand env command arguments).1 := by
  have hlog : s.log env .trace ("invoking " ++ Text.quotedList (command :: arguments)) =
      s.announced env (command :: arguments) := rfl
  simp only [runCommand, hlog]
  cases hb : Builtin.ofName? command with
  | none =>
    simp only
    rcases @runProgram_kept env (s.announced env (command :: arguments)) command arguments
      with h | h
    · rw [h]
      exact settle_complaint
    · exact settle_ran (.kept h)
  | some b =>
    obtain rfl := Builtin.ofName?_eq_some.mp hb
    simp only [runBuiltin_outcome]
    rcases @Builtin.run_cases env b arguments
        (.ofDescriptor 1 (s.announced env (b.name :: arguments)))
        (s.announced env (b.name :: arguments)) with
      ⟨r, h⟩ | ⟨complaint, h⟩ | ⟨rfl, rfl, h⟩ | ⟨program, rest, rfl, rfl, h⟩
    · exact settle_ran (.kept (.inl ⟨r, h⟩))
    · rw [h]
      exact settle_complaint
    · rw [h]
      exact settle_ran .exit
    · rcases h with ⟨ending, h, hk⟩ | ⟨hfind, h⟩
      · rw [h]
        exact settle_ran (.replaced hk)
      · rw [h]
        rw [announced_process] at hfind
        exact settle_ran (.notFound hfind)

theorem runCommand_exit : (s.runCommand env Builtin.exit.name []).1 = .leave 0 := by
  have hname : Builtin.ofName? Builtin.exit.name = some .exit := Builtin.ofName?_eq_some.mpr rfl
  simp only [runCommand, hname]
  rfl

end ShellState

namespace Expression

variable {env : Environment} {e : Expression} {s : ShellState}

def Runs (env : Environment) (s : ShellState) (e : Expression) (words : List Text) : Prop :=
  ∃ i, (e = .command i ∨ e = .string i) ∧ i.memo = none ∧
    (i.mapWords (Expansion.expand env.home s.process.pid)).words.map Token.text = words

theorem invoke_runs {host : Host} {i : Invocation} {command : Text} {arguments : List Text}
    (hm : i.memo = none) (hw : (i.mapWords (Expansion.expand host.home s.process.pid)).words.map
      Token.text = command :: arguments) :
    (s.invoke host i).effect = s.runCommand host command arguments := by
  obtain ⟨hhead, htail⟩ := List.cons.inj hw
  simp only [ShellState.invoke, hm]
  rw [hhead, htail]
  split
  next h => exact Prod.ext h.symm rfl
  next => rfl

theorem evaluate_runs {host : Host} {command : Text} {arguments : List Text}
    (h : e.Runs host.toEnvironment s (command :: arguments)) :
    (e.evaluate host s).effect = s.runCommand host command arguments := by
  obtain ⟨i, rfl | rfl, hm, hw⟩ := h
  · exact invoke_runs hm hw
  · exact invoke_runs hm hw

theorem runs_of_abrupt (h : (e.evaluate env s).outcome.isAbrupt = true) :
    ∃ command arguments, e.Runs env s (command :: arguments) := by
  have unremembered {i : Invocation} (h : (s.invoke env i).outcome.isAbrupt = true) :
      i.memo = none := by
    cases hm : i.memo with
    | none => rfl
    | some memo =>
      simp only [ShellState.invoke, hm] at h
      cases h
  cases e with
  | command i => exact ⟨_, _, i, .inl rfl, unremembered h, rfl⟩
  | string i => exact ⟨_, _, i, .inr rfl, unremembered h, rfl⟩
  | value n => cases h

end Expression

namespace Redirection

def operands : Redirection → List Expression
  | overwrite fd _ | append fd _ => fd.toList
  | mergeStream source destination => [source, destination]
  | mergeOutput _ | mergeAppend _ | input _ => []

def IsDescriptor (e : Expression) : Prop := ∃ n, e = .value n ∧ Wiring.inRange n = true

theorem descriptor_error {standard : Int} {fd : Option Expression} {complaint : Complaint}
    (h : Wiring.descriptor standard fd = .error complaint) :
    ∃ e ∈ fd.toList, ¬ IsDescriptor e := by
  cases fd with
  | none => cases h
  | some e =>
    refine ⟨e, by simp, ?_⟩
    rintro ⟨n, rfl, hn⟩
    simp only [Wiring.descriptor, hn, if_true] at h
    split at h <;> cases h

theorem operand_of_error {r : Redirection} {complaint : Complaint}
    (h : Wiring.ofRedirection r = .error complaint) : ∃ e ∈ r.operands, ¬ IsDescriptor e := by
  cases r with
  | overwrite fd target | append fd target =>
    simp only [Wiring.ofRedirection, Wiring.output] at h
    split at h
    next => cases h
    next hd => exact descriptor_error hd
  | mergeStream source destination =>
    simp only [Wiring.ofRedirection] at h
    split at h
    next hs =>
      obtain ⟨e, he, hbad⟩ := descriptor_error hs
      obtain rfl : e = source := by simpa using he
      exact ⟨e, by simp [operands], hbad⟩
    next =>
      split at h
      next hd =>
        obtain ⟨e, he, hbad⟩ := descriptor_error hd
        obtain rfl : e = destination := by simpa using he
        exact ⟨e, by simp [operands], hbad⟩
      next => cases h
  | mergeOutput | mergeAppend | input => cases h

theorem operands_expand (env : Environment) (s : ShellState) (r : Redirection) :
    (r.expand env s).operands = r.operands := by
  cases r <;> rfl

end Redirection

namespace Statement

variable {env : Environment} {t left right : Statement} {s : ShellState} {r : Redirection}

def redirection? : Statement → Option Redirection
  | redirect r _ | bare r => some r
  | _ => none

inductive ComesTo (env : Environment) : Statement → ShellState → Outcome → Prop
  | value {t : Statement} {s : ShellState} (r : Result) : ComesTo env t s (.value r)
  | lost {t : Statement} {s : ShellState}
      (h : env.Untold ∨ ∃ u : Statement, Untold fun s => (u.evaluate env s).effect) :
      ComesTo env t s (.failed (Guard.waitFailure .invalidArgument))
  | descriptor {t : Statement} {s : ShellState} {r : Redirection} {complaint : Complaint}
      (ht : t.redirection? = some r) (he : ∃ e ∈ r.operands, ¬ Redirection.IsDescriptor e) :
      ComesTo env t s (.failed (.argument complaint))
  | exit {e : Expression} {s : ShellState} (hr : e.Runs env s [Builtin.exit.name]) :
      ComesTo env (.atom e) s (.leave 0)
  | replaced {e : Expression} {s : ShellState} {ending : Ending}
      (hk : ending.isKnown = false → env.Untold) : ComesTo env (.atom e) s (.replaced ending)
  | notFound {e : Expression} {s : ShellState} {command : Text} {arguments : List Text}
      (hr : e.Runs env s (Builtin.exec.name :: command :: arguments))
      (hf : Execution.find? env.search s.process
        (s.announced env (Builtin.exec.name :: command :: arguments)).world command = none) :
      ComesTo env (.atom e) s (.failed (.notFound command))

theorem ComesTo.ofKept {lost : Prop} {o : Outcome} (h : o.Kept lost)
    (hl : lost → env.Untold ∨ ∃ u : Statement, Untold fun s => (u.evaluate env s).effect) :
    ComesTo env t s o := by
  rcases h with ⟨r, rfl⟩ | ⟨rfl, hlost⟩
  · exact .value r
  · exact .lost (hl hlost)

theorem redirected_comesTo {body : ShellState → Outcome × ShellState}
    (ht : t.redirection? = some r)
    (hb : Untold body → ∃ u : Statement, Untold fun s => (u.evaluate env s).effect) :
    ComesTo env t s (s.runRedirected env (r.expand env s) body).1 := by
  rcases @ShellState.runRedirected_kept env s body (r.expand env s) with ⟨complaint, hw, ho⟩ | hk
  · have hbad := Redirection.operand_of_error hw
    rw [Redirection.operands_expand] at hbad
    rw [ho]
    exact .descriptor ht hbad
  · exact .ofKept hk fun h => .inr (hb h)

theorem atom_comesTo (e : Expression) :
    ComesTo env (.atom e) s ((atom e).evaluate env s).outcome := by
  cases ha : ((atom e).evaluate env s).outcome.isAbrupt with
  | false =>
    obtain ⟨r, ho⟩ := Outcome.value_of_not_abrupt ha
    rw [ho]
    exact .value r
  | true =>
    obtain ⟨command, arguments, hruns⟩ := Expression.runs_of_abrupt ha
    have ho : ((atom e).evaluate env s).outcome = (s.runCommand env command arguments).1 :=
      congrArg Prod.fst (Expression.evaluate_runs hruns)
    have hran := @ShellState.runCommand_ran env s command arguments
    rw [← ho] at hran
    generalize ((atom e).evaluate env s).outcome = o at hran ⊢
    cases hran with
    | kept h => exact .ofKept h .inl
    | exit => exact .exit hruns
    | replaced hk => exact .replaced hk
    | notFound hf => exact .notFound hruns hf

theorem leaf_comesTo (hleaf : t.first? = none) : ComesTo env t s (t.evaluate env s).outcome := by
  cases t with
  | sequence | closed | and | or | not => cases hleaf
  | pipeline left right =>
    refine .ofKept ShellState.runPipeline_kept fun h => .inr ?_
    rcases h with h | h
    · exact ⟨left, h⟩
    · exact ⟨right, h⟩
  | redirect r left => exact redirected_comesTo rfl fun h => ⟨left, h⟩
  | bare r =>
    refine redirected_comesTo rfl fun h => ?_
    obtain ⟨_, _, ho, _⟩ := h
    cases ho
  | atom e => exact atom_comesTo e

/-- An evaluation is cut short by one of these causes, where it is reached. -/
theorem abrupt_comesTo {o : Outcome} (h : (t.evaluate env s).outcome = o)
    (ho : o.isAbrupt = true) : ∃ u s', t.Reaches env s u s' ∧ ComesTo env u s' o := by
  subst h
  obtain ⟨u, s', hr, hleaf, hu⟩ := abrupt_reached ho
  rw [← hu]
  exact ⟨u, s', hr, leaf_comesTo hleaf⟩

theorem replaced_untold {ending : Ending} (h : (t.evaluate env s).outcome = .replaced ending)
    (hk : ending.isKnown = false) : env.Untold := by
  obtain ⟨_, _, _, hcause⟩ := abrupt_comesTo h rfl
  cases hcause with
  | replaced huntold => exact huntold hk

/-- Evaluated by children: the shell does not leave, it stays in its directory,
and what the children evaluated has not changed. -/
structure Contained (s : ShellState) (form : Statement) (e : Evaluated Statement) : Prop where
  stays : ∀ code, e.outcome ≠ .leave code
  form : e.form = form
  directory : e.state.process.directory = s.process.directory

theorem leave_iff (code : Nat) : (t.evaluate env s).outcome = .leave code ↔
    code = 0 ∧ ∃ e s', t.Reaches env s (.atom e) s' ∧ e.Runs env s' [Builtin.exit.name] := by
  constructor
  · intro h
    obtain ⟨u, s', hr, hcause⟩ := abrupt_comesTo h rfl
    cases hcause with
    | exit hruns => exact ⟨rfl, _, s', hr, hruns⟩
  · rintro ⟨rfl, e, s', hr, hruns⟩
    have ho : ((atom e).evaluate env s').outcome = .leave 0 :=
      (congrArg Prod.fst (Expression.evaluate_runs hruns)).trans ShellState.runCommand_exit
    rw [reached_abrupt hr (by rw [ho]; rfl), ho]

example (env : Environment) (s : ShellState) :
    ((not (atom (.command ⟨⟨.command, Builtin.exit.name, ⟨1, 3⟩⟩, [], none⟩))).evaluate env
      s).outcome = .leave 0 := by
  obtain ⟨home, search, execute, interactive, logger⟩ := env
  cases home <;> rfl

/-- The shell leaves only by an `exit` that it reaches itself, and then with
zero. It fails only by an `exec` that finds nothing to execute, or by a
redirection with a wrong descriptor, unless a child was lost by a program that
ends in a way nobody is told. A pipeline or a redirection is contained. -/
theorem unwinding_contained (env : Environment) (t : Statement) (s : ShellState) :
    (∀ code, (t.evaluate env s).outcome = .leave code ↔
      code = 0 ∧ ∃ e s', t.Reaches env s (.atom e) s' ∧ e.Runs env s' [Builtin.exit.name]) ∧
    (∀ failure, (t.evaluate env s).outcome = .failed failure →
      (∃ e s' command arguments, t.Reaches env s (.atom e) s' ∧
        e.Runs env s' (Builtin.exec.name :: command :: arguments) ∧
        Execution.find? env.search s'.process
          (s'.announced env (Builtin.exec.name :: command :: arguments)).world command = none ∧
        failure = .notFound command) ∨
      (∃ u s' r complaint, t.Reaches env s u s' ∧ u.redirection? = some r ∧
        (∃ e ∈ r.operands, ¬ Redirection.IsDescriptor e) ∧ failure = .argument complaint) ∨
      failure = Guard.waitFailure .invalidArgument ∧ env.Untold) ∧
    (∀ left right, Contained s (.pipeline left right) ((pipeline left right).evaluate env s)) ∧
    (∀ r left,
      Contained s (.redirect (r.expand env s) left) ((redirect r left).evaluate env s)) ∧
    ∀ r, Contained s (.bare (r.expand env s)) ((bare r).evaluate env s) := by
  refine ⟨leave_iff, fun failure h => ?_, fun left right => ?_, fun r left => ?_, fun r => ?_⟩
  · obtain ⟨u, s', hr, hcause⟩ := abrupt_comesTo h rfl
    cases hcause with
    | notFound hruns hf => exact .inl ⟨_, s', _, _, hr, hruns, hf, rfl⟩
    | descriptor ht he => exact .inr (.inl ⟨u, s', _, _, hr, ht, he, rfl⟩)
    | lost hl =>
      refine .inr (.inr ⟨rfl, ?_⟩)
      rcases hl with huntold | ⟨_, _, _, hv, hk⟩
      · exact huntold
      -- The child that was lost had been replaced by a program, somewhere in its tree.
      · exact replaced_untold hv hk
  · exact ⟨ShellState.runPipeline_kept.ne_leave, rfl, ShellState.runPipeline_alongside.directory⟩
  · exact ⟨ShellState.runRedirected_ne_leave, rfl, ShellState.runRedirected_alongside.directory⟩
  · exact ⟨ShellState.runRedirected_ne_leave, rfl, ShellState.runRedirected_alongside.directory⟩

end Statement

end TinyShell
